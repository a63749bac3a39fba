import ChatChannel.Conc.Ghost
import ChatChannel.Conc.Waiting
import ChatChannel.Proof.Atomicity

/-!
# No wake-up is lost

A thread that finds the queue empty in `wait_and_pop` sleeps until it is notified. `push` notifies one sleeper,
after it has released the mutex, and `stop` all of them. Whoever pushed and has not notified yet, and whoever was
notified and has not taken an item yet, is `called`; who gives back the mutex of an empty queue is not any more. While
anybody sleeps, the queue has at most as many items as there are threads called (`Wakes`), and a thread that is called
is awake and in the middle of a method. So no item waits for a sleeper that nobody will wake.

The two sets are kept beside the state (`Conc/Ghost.lean`).
-/

set_option autoImplicit false

namespace ChatChannel.ProducerConsumerQueue

open Conc

variable {T : Type} {E : Sig} {Tid ε : Type} [DecidableEq Tid]

/-- The threads whose turn it is: to notify one sleeper or to take an item, and to notify all of them. -/
structure Turns (Tid : Type) where
  called : Finset Tid
  stopping : Finset Tid

/-- The turns after `t` gave back the mutex and left the items `q`. -/
def Turns.release (w : Turns Tid) (t : Tid) : List T → Turns Tid
  | [] => { w with called := w.called.erase t }
  | _ :: _ => w

section

variable {t u : Tid} {w : Turns Tid} {q : List T}

@[simp] theorem Turns.release_stopping : (w.release t q).stopping = w.stopping := by
  cases q <;> rfl

theorem Turns.mem_release_stopping : u ∈ (w.release t q).stopping ↔ u ∈ w.stopping := by
  rw [release_stopping]

theorem Turns.mem_of_release (hu : u ∈ (w.release t q).called) : u ∈ w.called := by
  cases q with
  | nil => exact Finset.mem_of_mem_erase hu
  | cons x q => exact hu

theorem Turns.notMem_release (h : q = [] ∨ t ∉ w.called) : t ∉ (w.release t q).called := by
  rcases h with rfl | h
  · exact Finset.notMem_erase t _
  · exact fun hmem => h (mem_of_release hmem)

/-- While there are items, the thread keeps its turn. -/
theorem Turns.length_le_release (h : q.length ≤ w.called.card) : q.length ≤ (w.release t q).called.card := by
  cases q with
  | nil => exact Nat.zero_le _
  | cons x q => exact h

end

/-- How a step moves the turns on. `notify_one` hands its turn to the thread it wakes. -/
def turn (e : Event ((monitor T).micro E) Tid ((monitor T).State Tid ε)) (w : Turns Tid) : Turns Tid :=
  match e.act with
  | .access (.push _) => { w with called := insert e.tid w.called }
  | .access .pop => { w with called := w.called.erase e.tid }
  | .access .storeStopped => { w with stopping := insert e.tid w.stopping }
  | .unlock => w.release e.tid e.pre.data.queue
  | .sleep => { w with called := w.called.erase e.tid }
  | .notifyOne => { w with called := w.called.erase e.tid ∪ (e.pre.asleep \ e.post.asleep) }
  | .notifyAll => { w with stopping := w.stopping.erase e.tid }
  | _ => w

/-- The state with the turns. -/
abbrev Scene (T : Type) (Tid ε : Type) : Type := (monitor T).State Tid ε × Turns Tid

/-- What makes sure that sleepers are woken. -/
structure Wakes (z : Scene T Tid ε) : Prop where
  readers : z.1.readers = ∅
  called : ∀ t ∈ z.2.called, t ∉ z.1.asleep
  stopping : ∀ t ∈ z.2.stopping, t ∉ z.1.asleep
  enough : z.1.asleep ≠ ∅ → z.1.data.queue.length ≤ z.2.called.card
  ending : z.1.data.stopped = true → z.1.asleep ≠ ∅ → z.2.stopping ≠ ∅

/-- A thread between two methods. -/
structure Outside (t : Tid) (z : Scene T Tid ε) : Prop where
  holder : z.1.holder ≠ some t
  awake : t ∉ z.1.asleep
  called : t ∉ z.2.called
  stopping : t ∉ z.2.stopping

/-- What a thread guarantees when it makes a step. -/
def Guards (t : Tid) : (monitor T).Micro E → Scene T Tid ε → Prop
  | .lock, z => Outside t z
  | .env _, z => Outside t z
  | .unlock, z => z.1.holder = some t ∧ t ∉ z.1.asleep
  | .sleep, z => z.1.holder = some t ∧ t ∉ z.1.asleep ∧ t ∉ z.2.stopping ∧ z.1.data = ⟨[], false⟩
  | .resume, z => z.1.holder ≠ some t ∧ t ∉ z.2.stopping
  | .access (.push _), z => z.1.holder = some t ∧ t ∉ z.1.asleep ∧ t ∉ z.2.called
  | .access _, z => z.1.holder = some t ∧ t ∉ z.1.asleep
  | .notifyOne, z => z.1.holder ≠ some t ∧ t ∉ z.1.asleep
  | .notifyAll, z => z.1.holder ≠ some t ∧ t ∉ z.1.asleep
  | .stall, z => t ∉ z.1.asleep
  | .lockShared, _ => False
  | .unlockShared, _ => False

variable {clients : Tid → Prog ((monitor T).calls E) Unit}
  {around : Tid → (e : E.Act) → E.Res e → ε → ε → Prop} {bound : Nat} {t u : Tid}
  {a : (monitor T).Micro E} {r : (monitor T).MicroRes E a} {z z' : Scene T Tid ε}

/-- The code with the turns. -/
abbrev watched (clients : Tid → Prog ((monitor T).calls E) Unit)
    (around : Tid → (e : E.Act) → E.Res e → ε → ε → Prop) (bound : Nat) :
    Sys ((monitor T).micro E) Tid (Scene T Tid ε) :=
  (Monitor.locking clients around bound).ghosting turn

/-- **Every step keeps enough threads called.** -/
theorem Wakes.step (hi : Wakes z) (hg : Guards t a z) (hs : (watched clients around bound).step t a r z z') :
    Wakes z' := by
  obtain ⟨x, w⟩ := z
  obtain ⟨y, w'⟩ := z'
  obtain ⟨hstep, hturn⟩ := hs
  change Monitor.microStep around t a r x y at hstep
  change w' = turn ⟨t, a, r, x, y⟩ w at hturn
  subst hturn
  cases a with
  | lock =>
    obtain ⟨-, hreaders, rfl⟩ := hstep
    exact ⟨hi.readers, hi.called, hi.stopping, hi.enough, hi.ending⟩
  | unlock =>
    obtain rfl := hstep
    exact ⟨hi.readers, fun u hu => hi.called u (Turns.mem_of_release hu),
      fun u hu => hi.stopping u (Turns.mem_release_stopping.mp hu), fun h => Turns.length_le_release (hi.enough h),
      fun hst h => ne_of_eq_of_ne Turns.release_stopping (hi.ending hst h)⟩
  | lockShared => exact hg.elim
  | unlockShared => exact hg.elim
  | sleep =>
    obtain rfl := hstep
    obtain ⟨-, hawake, hstopping, hdata⟩ := hg
    have hd : x.data = ⟨[], false⟩ := hdata
    refine ⟨hi.readers, fun u hu => ?_, fun u hu => ?_, fun _ => ?_, fun hst => ?_⟩
    · obtain ⟨hne, hu⟩ := Finset.mem_erase.mp hu
      exact fun h => (Finset.mem_insert.mp h).elim hne (hi.called u hu)
    · refine fun h => (Finset.mem_insert.mp h).elim ?_ (hi.stopping u hu)
      rintro rfl
      exact hstopping hu
    · rw [hd]
      exact Nat.zero_le _
    · rw [hd] at hst
      cases hst
  | resume =>
    obtain ⟨-, -, rfl⟩ := hstep
    have hsub {u : Tid} (h : u ∈ x.asleep.erase t) : u ∈ x.asleep := Finset.mem_of_mem_erase h
    have hne (h : x.asleep.erase t ≠ ∅) : x.asleep ≠ ∅ := by
      intro h₀
      rw [h₀] at h
      exact h (Finset.erase_empty t)
    exact ⟨hi.readers, fun u hu h => hi.called u hu (hsub h), fun u hu h => hi.stopping u hu (hsub h),
      fun h => hi.enough (hne h), fun hst h => hi.ending hst (hne h)⟩
  | notifyOne =>
    obtain ⟨-, hawake⟩ := hg
    rcases hstep with ⟨hempty, rfl⟩ | ⟨u, hu, rfl⟩
    · exact ⟨hi.readers, fun v _ => by rw [hempty]; exact Finset.notMem_empty v, hi.stopping,
        fun h => absurd hempty h, fun _ h => absurd hempty h⟩
    · -- the turn goes from `t` to `u`
      have hwoken : x.asleep \ x.asleep.erase u = {u} := Finset.sdiff_erase_self hu
      have hnew : turn (E := E) ⟨t, .notifyOne, (), x, { x with asleep := x.asleep.erase u }⟩ w =
          { w with called := w.called.erase t ∪ {u} } := by rw [← hwoken]; rfl
      have hcard : w.called.card ≤ (w.called.erase t ∪ {u}).card := by
        have hdisj : Disjoint (w.called.erase t) {u} := by
          rw [Finset.disjoint_singleton_right]
          exact fun h => hi.called u (Finset.mem_of_mem_erase h) hu
        rw [Finset.card_union_of_disjoint hdisj, Finset.card_singleton]
        have herase : w.called.card - 1 ≤ (w.called.erase t).card := Finset.pred_card_le_card_erase
        omega
      have hne (h : x.asleep.erase u ≠ ∅) : x.asleep ≠ ∅ := Finset.ne_empty_of_mem hu
      rw [hnew]
      refine ⟨hi.readers, fun v hv => ?_, fun v hv h => hi.stopping v hv (Finset.mem_of_mem_erase h),
        fun h => (hi.enough (hne h)).trans hcard, fun hst h => hi.ending hst (hne h)⟩
      rcases Finset.mem_union.mp hv with hv | hv
      · exact fun h => hi.called v (Finset.mem_of_mem_erase hv) (Finset.mem_of_mem_erase h)
      · rw [Finset.mem_singleton.mp hv]
        exact Finset.notMem_erase u _
  | notifyAll =>
    obtain rfl := hstep
    exact ⟨hi.readers, fun _ _ => Finset.notMem_empty _, fun _ _ => Finset.notMem_empty _,
      fun h => absurd rfl h, fun _ h => absurd rfl h⟩
  | stall => exact r.elim
  | access a =>
    obtain ⟨d, hacc, rfl⟩ := hstep
    -- most accesses only read
    have hread (hd : d = x.data) (hw : turn (E := E) ⟨t, .access a, r, x, { x with data := d }⟩ w = w) :
        Wakes (({ x with data := d } : (monitor T).State Tid ε),
          turn (E := E) ⟨t, .access a, r, x, { x with data := d }⟩ w) := by
      rw [hw, hd]
      exact hi
    cases a with
    | empty | front | size | loadStopped => exact hread hacc.2 rfl
    | pop =>
      obtain ⟨-, rfl⟩ := hacc
      refine ⟨hi.readers, fun u hu => hi.called u (Finset.mem_of_mem_erase hu), hi.stopping, fun h => ?_,
        fun hst h => hi.ending hst h⟩
      have henough : x.data.queue.length ≤ w.called.card := hi.enough h
      have herase : w.called.card - 1 ≤ (w.called.erase t).card := Finset.pred_card_le_card_erase
      show x.data.queue.tail.length ≤ (w.called.erase t).card
      rw [List.length_tail]
      omega
    | push item =>
      obtain rfl := hacc
      obtain ⟨-, hawake, hcalled⟩ := hg
      refine ⟨hi.readers, fun u hu => ?_, hi.stopping, fun h => ?_, fun hst h => hi.ending hst h⟩
      · rcases Finset.mem_insert.mp hu with rfl | hu
        · exact hawake
        · exact hi.called u hu
      · have henough : x.data.queue.length ≤ w.called.card := hi.enough h
        show (x.data.queue ++ [item]).length ≤ (insert t w.called).card
        rw [Finset.card_insert_of_notMem hcalled, List.length_append]
        exact Nat.add_le_add_right henough 1
    | swap =>
      obtain ⟨-, rfl⟩ := hacc
      exact ⟨hi.readers, hi.called, hi.stopping, fun _ => Nat.zero_le _, fun hst h => hi.ending hst h⟩
    | storeStopped =>
      obtain rfl := hacc
      refine ⟨hi.readers, hi.called, fun u hu => ?_, hi.enough, fun _ _ => ?_⟩
      · rcases Finset.mem_insert.mp hu with rfl | hu
        · exact hg.2
        · exact hi.stopping u hu
      · exact Finset.insert_ne_empty t _
  | env e =>
    obtain ⟨v, -, rfl⟩ := hstep
    exact ⟨hi.readers, hi.called, hi.stopping, hi.enough, hi.ending⟩

variable (clients around bound) in
/-- The proof outline. -/
def wakes : Outline (watched clients around bound) where
  Inv := Wakes
  Pre := Guards
  pres := fun hi hg hs => hi.step hg hs

/-! ## What the others leave alone -/

/-- What a thread's own view of the scene keeps while another thread makes a step. -/
structure Kept (t : Tid) (z z' : Scene T Tid ε) : Prop where
  held : z.1.holder = some t → z'.1.holder = some t ∧ z'.1.data = z.1.data
  free : z.1.holder ≠ some t → z'.1.holder ≠ some t
  awake : t ∉ z.1.asleep → t ∉ z'.1.asleep
  called : t ∉ z.1.asleep → t ∉ z.2.called → t ∉ z'.2.called
  stopping : t ∉ z.2.stopping → t ∉ z'.2.stopping

theorem kept (hu : u ≠ t) (hg : Guards u a z) (hs : (watched clients around bound).step u a r z z') :
    Kept t z z' := by
  obtain ⟨x, w⟩ := z
  obtain ⟨y, w'⟩ := z'
  obtain ⟨hstep, hturn⟩ := hs
  change Monitor.microStep around u a r x y at hstep
  change w' = turn ⟨u, a, r, x, y⟩ w at hturn
  subst hturn
  have hnot (h : x.holder = some u) : x.holder ≠ some t := by
    rw [h]
    exact fun h => hu (Option.some.inj h)
  have hnone : (none : Option Tid) ≠ some t := nofun
  have hother : some u ≠ some t := fun h => hu (Option.some.inj h)
  cases a with
  | lock =>
    obtain ⟨hfree, -, rfl⟩ := hstep
    exact ⟨fun h => absurd (hfree.symm.trans h) hnone, fun _ => hother, id, fun _ => id, id⟩
  | unlock =>
    obtain rfl := hstep
    exact ⟨fun h => absurd h (hnot hg.1), fun _ => hnone, id, fun _ h hmem => h (Turns.mem_of_release hmem),
      fun h hmem => h (Turns.mem_release_stopping.mp hmem)⟩
  | lockShared => exact hg.elim
  | unlockShared => exact hg.elim
  | sleep =>
    obtain rfl := hstep
    exact ⟨fun h => absurd h (hnot hg.1), fun _ => hnone,
      fun h hmem => (Finset.mem_insert.mp hmem).elim (fun h => hu h.symm) h,
      fun _ h hmem => h (Finset.mem_of_mem_erase hmem), id⟩
  | resume =>
    obtain ⟨hfree, -, rfl⟩ := hstep
    exact ⟨fun h => absurd (hfree.symm.trans h) hnone, fun _ => hother,
      fun h hmem => h (Finset.mem_of_mem_erase hmem), fun _ => id, id⟩
  | notifyOne =>
    have hcalled {y : (monitor T).State Tid ε} (ha : t ∉ x.asleep) (hc : t ∉ w.called) :
        t ∉ w.called.erase u ∪ (x.asleep \ y.asleep) := by
      intro hmem
      rcases Finset.mem_union.mp hmem with h | h
      · exact hc (Finset.mem_of_mem_erase h)
      · exact ha (Finset.mem_sdiff.mp h).1
    rcases hstep with ⟨-, rfl⟩ | ⟨v, -, rfl⟩
    · exact ⟨fun h => ⟨h, rfl⟩, id, id, hcalled, id⟩
    · exact ⟨fun h => ⟨h, rfl⟩, id, fun h hmem => h (Finset.mem_of_mem_erase hmem), hcalled, id⟩
  | notifyAll =>
    obtain rfl := hstep
    exact ⟨fun h => ⟨h, rfl⟩, id, fun _ => Finset.notMem_empty t, fun _ => id,
      fun h hmem => h (Finset.mem_of_mem_erase hmem)⟩
  | stall => exact r.elim
  | env e =>
    obtain ⟨v, -, rfl⟩ := hstep
    exact ⟨fun h => ⟨h, rfl⟩, id, id, fun _ => id, id⟩
  | access a =>
    obtain ⟨d, hacc, rfl⟩ := hstep
    have hholds : x.holder = some u := by cases a <;> exact hg.1
    refine ⟨fun h => absurd h (hnot hholds), id, id, ?_, ?_⟩
    · intro _ h
      cases a with
      | push item => exact fun hmem => (Finset.mem_insert.mp hmem).elim (fun h => hu h.symm) h
      | pop => exact fun hmem => h (Finset.mem_of_mem_erase hmem)
      | empty | front | swap | size | loadStopped | storeStopped => exact h
    · intro h
      cases a with
      | storeStopped => exact fun hmem => (Finset.mem_insert.mp hmem).elim (fun h => hu h.symm) h
      | empty | front | pop | push | swap | size | loadStopped => exact h

/-! ## The assertions -/

/-- The thread has the mutex and finds the members `d`; with `idle` it has no turn of its own. -/
structure Holds (t : Tid) (idle : Bool) (d : Members T) (z : Scene T Tid ε) : Prop where
  holder : z.1.holder = some t
  data : z.1.data = d
  awake : t ∉ z.1.asleep
  stopping : t ∉ z.2.stopping
  called : idle = true → t ∉ z.2.called

/-- The thread is about to notify. -/
structure Notifies (t : Tid) (z : Scene T Tid ε) : Prop where
  holder : z.1.holder ≠ some t
  awake : t ∉ z.1.asleep

variable {d : Members T} {idle : Bool}

omit [DecidableEq Tid] in
theorem Outside.kept (h : Outside t z) (hk : Kept t z z') : Outside t z' where
  holder := hk.free h.holder
  awake := hk.awake h.awake
  called := hk.called h.awake h.called
  stopping := hk.stopping h.stopping

omit [DecidableEq Tid] in
theorem Holds.kept (h : Holds t idle d z) (hk : Kept t z z') : Holds t idle d z' where
  holder := (hk.held h.holder).1
  data := (hk.held h.holder).2.trans h.data
  awake := hk.awake h.awake
  stopping := hk.stopping h.stopping
  called hi := hk.called h.awake (h.called hi)

omit [DecidableEq Tid] in
theorem Notifies.kept (h : Notifies t z) (hk : Kept t z z') : Notifies t z' :=
  ⟨hk.free h.holder, hk.awake h.awake⟩

theorem stable_of_kept {P : Scene T Tid ε → Prop} (h : ∀ {z z'}, P z → Kept t z z' → P z') :
    (wakes clients around bound).Stable t P :=
  fun hu _ hg hs _ hP => h hP (kept hu hg hs)

/-! ## The methods -/

section

variable (clients around bound) in
/-- The judgment for one thread. -/
abbrev Does {α : Type} (t : Tid) (P : Scene T Tid ε → Prop) (p : Prog ((monitor T).micro E) α)
    (Q : Scene T Tid ε → Prop) : Prop :=
  (wakes clients around bound).Triple t P p (fun _ => Q) fun _ _ => False

variable {α : Type} {Q : Scene T Tid ε → Prop}

/-- An access with one outcome, which leaves the thread with the mutex. -/
theorem does_access {a : Access T} {b : AccessRes a} {n : Members T} {i : Bool}
    {k : AccessRes a → Prog ((monitor T).micro E) α} (hdet : ∀ q y, step a q d y ↔ q = b ∧ y = n)
    (hpush : ∀ x, a = .push x → idle = true) (hstop : a ≠ .storeStopped)
    (hidle : i = true → idle = true ∧ (∀ x, a ≠ .push x) ∨ a = .pop)
    (hk : Does clients around bound t (Holds t i n) (k b) Q) :
    Does clients around bound t (Holds t idle d) (.act (.access a) k) Q := by
  refine .act (V := fun q z => q = b ∧ Holds t i n z) (stable_of_kept Holds.kept) ?_ ?_ ?_
  · intro z _ h
    cases a with
    | push x => exact ⟨h.holder, h.awake, h.called (hpush x rfl)⟩
    | empty | front | pop | swap | size | loadStopped | storeStopped => exact ⟨h.holder, h.awake⟩
  · rintro q ⟨x, w⟩ ⟨y, w'⟩ - h ⟨hstep, hturn⟩ -
    change Monitor.microStep around t (.access a) q x y at hstep
    change w' = turn ⟨t, .access a, q, x, y⟩ w at hturn
    subst hturn
    obtain ⟨d₁, hacc, rfl⟩ := hstep
    have hd : x.data = d := h.data
    rw [hd] at hacc
    obtain ⟨rfl, rfl⟩ := (hdet q d₁).mp hacc
    refine ⟨rfl, h.holder, rfl, h.awake, ?_, fun hi => ?_⟩
    · cases a with
      | storeStopped => exact absurd rfl hstop
      | empty | front | pop | push | swap | size | loadStopped => exact h.stopping
    · rcases hidle hi with ⟨hidle, hno⟩ | rfl
      · have hcalled := h.called hidle
        cases a with
        | push x => exact absurd rfl (hno x)
        | pop => exact fun hmem => hcalled (Finset.mem_of_mem_erase hmem)
        | empty | front | swap | size | loadStopped | storeStopped => exact hcalled
      · exact Finset.notMem_erase t _
  · intro q
    refine .pure fun hq => ?_
    subst hq
    exact hk

/-- A thread without a turn of its own, or at an empty queue, gives the mutex back and is through. -/
theorem does_unlock {k : Unit → Prog ((monitor T).micro E) α} (hd : d.queue = [] ∨ idle = true)
    (hk : Does clients around bound t (Outside t) (k ()) Q) :
    Does clients around bound t (Holds t idle d) (.act .unlock k) Q := by
  refine .act (V := fun _ => Outside t) (stable_of_kept Holds.kept) (fun z _ h => ⟨h.holder, h.awake⟩) ?_
    fun _ => hk
  rintro _ ⟨x, w⟩ ⟨y, w'⟩ - h ⟨hstep, hturn⟩ -
  change w' = turn ⟨t, .unlock, (), x, y⟩ w at hturn
  subst hturn
  obtain rfl := hstep
  have hq : x.data.queue = d.queue := congrArg Members.queue h.data
  exact ⟨nofun, h.awake, Turns.notMem_release (hd.imp hq.trans h.called), mt Turns.mem_release_stopping.mp h.stopping⟩

theorem stable_outside : (wakes clients around bound).Stable t (Outside t) := stable_of_kept Outside.kept

theorem does_ret {b : α} : Does clients around bound t (Outside t) (.ret b) (Outside t) :=
  .ret stable_outside fun _ _ h => h

/-- After `push`: the mutex is given back, and then one sleeper is notified. -/
theorem does_notifyOne {b : α} :
    Does clients around bound t (Holds t idle d) (.act .unlock fun _ => .act .notifyOne fun _ => .ret b)
      (Outside t) := by
  have hst : (wakes clients around bound).Stable t fun z => Notifies t z ∧ t ∉ z.2.stopping :=
    stable_of_kept (P := fun z => Notifies t z ∧ t ∉ z.2.stopping) fun h hk => ⟨h.1.kept hk, hk.stopping h.2⟩
  refine .act (V := fun _ z => Notifies t z ∧ t ∉ z.2.stopping) (stable_of_kept Holds.kept)
    (fun z _ h => ⟨h.holder, h.awake⟩) ?_ fun _ => ?_
  · rintro _ ⟨x, w⟩ ⟨y, w'⟩ - h ⟨hstep, hturn⟩ -
    change w' = turn ⟨t, .unlock, (), x, y⟩ w at hturn
    subst hturn
    obtain rfl := hstep
    exact ⟨⟨nofun, h.awake⟩, mt Turns.mem_release_stopping.mp h.stopping⟩
  · refine .act (V := fun _ => Outside t) hst (fun z _ h => ⟨h.1.holder, h.1.awake⟩) ?_ fun _ => does_ret
    rintro r ⟨x, w⟩ ⟨y, w'⟩ - ⟨h, hstopping⟩ ⟨hstep, hturn⟩ -
    change Monitor.microStep around t .notifyOne r x y at hstep
    change w' = turn ⟨t, .notifyOne, r, x, y⟩ w at hturn
    subst hturn
    have hcalled : t ∉ w.called.erase t ∪ (x.asleep \ y.asleep) := by
      intro hmem
      rcases Finset.mem_union.mp hmem with hmem | hmem
      · exact Finset.notMem_erase t _ hmem
      · exact h.awake (Finset.mem_sdiff.mp hmem).1
    rcases hstep with ⟨-, rfl⟩ | ⟨u, -, rfl⟩
    · exact ⟨h.holder, h.awake, hcalled, hstopping⟩
    · exact ⟨h.holder, fun hmem => h.awake (Finset.mem_of_mem_erase hmem), hcalled, hstopping⟩

/-- `stop`: the flag is set, the mutex given back, and then every sleeper notified. -/
theorem does_stop {b : α} :
    Does clients around bound t (Holds t true d) (.act (.access .storeStopped) fun _ => .act .unlock fun _ =>
      .act .notifyAll fun _ => .ret b) (Outside t) := by
  let Stops (P : Scene T Tid ε → Prop) (z : Scene T Tid ε) : Prop := P z ∧ t ∉ z.1.asleep ∧ t ∉ z.2.called
  have hheld : (wakes clients around bound).Stable t (Stops fun z => z.1.holder = some t) :=
    stable_of_kept fun h hk => ⟨(hk.held h.1).1, hk.awake h.2.1, hk.called h.2.1 h.2.2⟩
  have hfree : (wakes clients around bound).Stable t (Stops fun z => z.1.holder ≠ some t) :=
    stable_of_kept fun h hk => ⟨hk.free h.1, hk.awake h.2.1, hk.called h.2.1 h.2.2⟩
  refine .act (V := fun _ => Stops fun z => z.1.holder = some t) (stable_of_kept Holds.kept)
    (fun z _ h => ⟨h.holder, h.awake⟩) ?_ fun _ => ?_
  · rintro _ ⟨x, w⟩ ⟨y, w'⟩ - h ⟨⟨d₁, -, hy⟩, hturn⟩ -
    change w' = turn ⟨t, .access .storeStopped, (), x, y⟩ w at hturn
    subst hturn
    obtain rfl := hy
    exact ⟨h.holder, h.awake, h.called rfl⟩
  refine .act (V := fun _ => Stops fun z => z.1.holder ≠ some t) hheld (fun z _ h => ⟨h.1, h.2.1⟩) ?_ fun _ => ?_
  · rintro _ ⟨x, w⟩ ⟨y, w'⟩ - h ⟨hstep, hturn⟩ -
    change w' = turn ⟨t, .unlock, (), x, y⟩ w at hturn
    subst hturn
    obtain rfl := hstep
    exact ⟨nofun, h.2.1, Turns.notMem_release (.inr h.2.2)⟩
  refine .act (V := fun _ => Outside t) hfree (fun z _ h => ⟨h.1, h.2.1⟩) ?_ fun _ => does_ret
  rintro _ ⟨x, w⟩ ⟨y, w'⟩ - ⟨hholder, -, hcalled⟩ ⟨hstep, hturn⟩ -
  change w' = turn ⟨t, .notifyAll, (), x, y⟩ w at hturn
  subst hturn
  obtain rfl := hstep
  exact ⟨hholder, Finset.notMem_empty t, hcalled, Finset.notMem_erase t _⟩

/-- A thread that found nothing sleeps, and takes the mutex again when it is woken. -/
theorem does_sleep {k : Prog ((monitor T).micro E) α}
    (hk : ∀ d, Does clients around bound t (Holds t false d) k Q) :
    Does clients around bound t (Holds t idle ⟨[], false⟩) (.act .sleep fun _ => .act .resume fun _ => k) Q := by
  have hst : (wakes clients around bound).Stable t fun z => z.1.holder ≠ some t ∧ t ∉ z.2.stopping :=
    stable_of_kept (P := fun z => z.1.holder ≠ some t ∧ t ∉ z.2.stopping) fun h hk =>
      ⟨hk.free h.1, hk.stopping h.2⟩
  refine .act (V := fun _ z => z.1.holder ≠ some t ∧ t ∉ z.2.stopping) (stable_of_kept Holds.kept)
    (fun z _ h => ⟨h.holder, h.awake, h.stopping, h.data⟩) ?_ fun _ => ?_
  · rintro _ ⟨x, w⟩ ⟨y, w'⟩ - h ⟨hstep, hturn⟩ -
    change w' = turn ⟨t, .sleep, (), x, y⟩ w at hturn
    subst hturn
    obtain rfl := hstep
    exact ⟨nofun, h.stopping⟩
  · refine .act (V := fun _ z => ∃ d, Holds t false d z) hst (fun z _ h => h) ?_ fun _ => .exists hk
    rintro _ ⟨x, w⟩ ⟨y, w'⟩ - h ⟨hstep, hturn⟩ -
    change w' = turn ⟨t, .resume, (), x, y⟩ w at hturn
    subst hturn
    obtain ⟨-, -, rfl⟩ := hstep
    exact ⟨x.data, rfl, rfl, Finset.notMem_erase t _, h.2, nofun⟩

theorem does_takeFront {x : T} {q : List T} {b : Bool} {k : Bool → Prog ((monitor T).micro E) α}
    (hk : Does clients around bound t (Holds t true ⟨q, b⟩) (k true) Q) :
    Does clients around bound t (Holds t idle ⟨x :: q, b⟩) (.act (.access .pop) k) Q :=
  does_access (b := true) (n := ⟨q, b⟩) (fun _ _ => Iff.rfl) (fun _ h => by cases h) (fun h => by cases h)
    (fun _ => .inr rfl) hk

/-- Accesses that neither push nor stop. -/
def Looks : Access T → Prop
  | .push _ | .storeStopped => False
  | _ => True

theorem Looks.not_push {a : Access T} (ha : Looks a) (x : T) : a ≠ .push x := by
  rintro rfl
  exact ha

theorem Looks.not_stop {a : Access T} (ha : Looks a) : a ≠ .storeStopped := by
  rintro rfl
  exact ha

/-- An access that only reads. -/
theorem does_read {a : Access T} {b : AccessRes a} {k : AccessRes a → Prog ((monitor T).micro E) α}
    (hdet : ∀ q y, step a q d y ↔ q = b ∧ y = d) (ha : Looks a)
    (hk : Does clients around bound t (Holds t idle d) (k b) Q) :
    Does clients around bound t (Holds t idle d) (.act (.access a) k) Q :=
  does_access hdet (fun x hx => absurd hx (ha.not_push x)) ha.not_stop
    (fun hi => .inl ⟨hi, ha.not_push⟩) hk

theorem does_stall {k : Empty → Prog ((monitor T).micro E) α} :
    Does clients around bound t (Holds t idle d) (.act .stall k) Q :=
  .act (V := fun _ _ => False) (stable_of_kept Holds.kept) (fun _ _ h => h.awake) (fun r => Empty.elim r)
    fun r => Empty.elim r

theorem does_waitAndPop {n : Nat} {idle : Bool} {d : Members T} :
    Does clients around bound t (Holds t idle d) (Monitor.attempts ((monitor T).method .waitAndPop) n)
      (Outside t) := by
  induction n generalizing idle d with
  | zero => exact does_stall
  | succ n ih =>
    obtain ⟨q, b⟩ := d
    -- `stopped_`, then `empty` if it is not set
    refine does_read (b := b) (fun _ _ => Iff.rfl) trivial ?_
    cases b with
    | false =>
      refine does_read (b := q.isEmpty) (fun _ _ => Iff.rfl) trivial ?_
      cases q with
      | nil => exact does_sleep fun d => ih
      | cons x q =>
        refine does_read (b := false) (fun _ _ => Iff.rfl) trivial ?_
        refine does_read (b := some x) (fun _ _ => Iff.rfl) trivial ?_
        exact does_takeFront (does_unlock (.inr rfl) does_ret)
    | true =>
      refine does_read (b := true) (fun _ _ => Iff.rfl) trivial ?_
      refine does_read (b := q.isEmpty) (fun _ _ => Iff.rfl) trivial ?_
      cases q with
      | nil => exact does_unlock (.inl rfl) does_ret
      | cons x q =>
        refine does_read (b := some x) (fun _ _ => Iff.rfl) trivial ?_
        exact does_takeFront (does_unlock (.inr rfl) does_ret)

theorem does_invoke (o : Op T) (n : Nat) :
    Does clients around bound t (Outside t) (Monitor.invoke ((monitor T).method o) n) (Outside t) := by
  refine .act (V := fun _ z => ∃ d, Holds t true d z) stable_outside (fun z _ h => h) ?_ fun _ => .exists fun d => ?_
  · rintro _ ⟨x, w⟩ ⟨y, w'⟩ - h ⟨hstep, hturn⟩ -
    change w' = turn ⟨t, .lock, (), x, y⟩ w at hturn
    subst hturn
    obtain ⟨-, -, rfl⟩ := hstep
    exact ⟨x.data, rfl, rfl, h.awake, h.stopping, fun _ => h.called⟩
  show Does clients around bound t (Holds t true d) (Monitor.attempts ((monitor T).method o) n) (Outside t)
  cases n with
  | zero => exact does_stall
  | succ n =>
    cases o with
    | waitAndPop => exact does_waitAndPop
    | stop => exact does_stop
    | push x =>
      exact does_access (b := ()) (n := ⟨d.queue ++ [x], d.stopped⟩) (i := false)
        (fun _ _ => ⟨fun h => ⟨rfl, h⟩, And.right⟩) (fun _ _ => rfl) (fun h => by cases h) (fun h => by cases h)
        does_notifyOne
    | tryPop =>
      obtain ⟨q, b⟩ := d
      refine does_read (b := q.isEmpty) (fun _ _ => Iff.rfl) trivial ?_
      cases q with
      | nil => exact does_unlock (.inr rfl) does_ret
      | cons x q =>
        refine does_read (b := some x) (fun _ _ => Iff.rfl) trivial ?_
        exact does_takeFront (does_unlock (.inr rfl) does_ret)
    | popAll =>
      exact does_access (b := d.queue) (n := ⟨[], d.stopped⟩) (i := true) (fun _ _ => Iff.rfl)
        (fun _ h => by cases h) (fun h => by cases h) (fun _ => .inl ⟨rfl, fun x => by simp⟩)
        (does_unlock (.inr rfl) does_ret)
    | empty =>
      exact does_read (b := d.queue.isEmpty) (fun _ _ => Iff.rfl) trivial (does_unlock (.inr rfl) does_ret)
    | size =>
      exact does_read (b := d.queue.length) (fun _ _ => Iff.rfl) trivial (does_unlock (.inr rfl) does_ret)

/-- A thread with any program over the methods. -/
theorem does_client [IsEmpty E.Err] (p : Prog ((monitor T).calls E) Unit) :
    Does clients around bound t (Outside t)
      (p.expand (S := (monitor T).calls E) (L := (monitor T).micro E) id (Monitor.codeOf bound)) (Outside t) := by
  induction p with
  | ret u => exact does_ret
  | raise e => exact isEmptyElim (α := E.Err) e
  | act a k ih =>
    cases a with
    | op o => exact .bind (does_invoke o bound) ih
    | env e =>
      refine .bind (.perform stable_outside (fun _ _ h => h) ?_ fun _ => stable_outside) ih
      rintro r ⟨x, w⟩ ⟨y, w'⟩ - h ⟨hstep, hturn⟩ -
      change w' = turn ⟨t, .env e, r, x, y⟩ w at hturn
      subst hturn
      obtain ⟨v, -, rfl⟩ := hstep
      exact ⟨h.holder, h.awake, h.called, h.stopping⟩

end

/-! ## Nobody sleeps for nothing -/

/-- The thread is awake and in the middle of a method, past the lock. -/
def UnderWay (c : Config ((monitor T).micro E) Tid ((monitor T).State Tid ε)) (t : Tid) : Prop :=
  t ∉ c.st.asleep ∧ ∃ (a : (monitor T).Micro E) (k : (monitor T).MicroRes E a → Prog ((monitor T).micro E) Unit),
    c.prog t = .act a k ∧ a ≠ .lock ∧ ∀ e, a ≠ .env e

section

variable {c : Config ((monitor T).micro E) Tid ((monitor T).State Tid ε)} {w : Turns Tid}
  {tr : List (Event ((monitor T).micro E) Tid (Scene T Tid ε))}
  (h : (wakes clients around bound).Verified Outside tr ⟨(c.st, w), c.prog⟩)
include h

/-- A thread that is not between two methods is under way, if it is awake. -/
theorem underWay (hawake : t ∉ c.st.asleep) (hnot : ¬ Outside t (c.st, w)) : UnderWay c t := by
  have htodo := h.todo t
  cases hp : c.prog t with
  | ret u =>
    simp only [hp] at htodo
    exact absurd (htodo _ .refl h.inv) hnot
  | raise e =>
    simp only [hp] at htodo
    exact (htodo _ .refl h.inv).elim
  | act a k =>
    have hpre : Guards t a (c.st, w) := h.next_pre hp
    refine ⟨hawake, a, k, hp, ?_, ?_⟩
    · rintro rfl
      exact hnot hpre
    · rintro e rfl
      exact hnot hpre

/-- The thread can make its next step, or has used up its attempts. -/
def Moving (clients : Tid → Prog ((monitor T).calls E) Unit)
    (around : Tid → (e : E.Act) → E.Res e → ε → ε → Prop) (bound : Nat)
    (c : Config ((monitor T).micro E) Tid ((monitor T).State Tid ε)) (t : Tid) : Prop :=
  (Monitor.locking clients around bound).Goes c t ∨
    ∃ k, c.prog t = .act (S := (monitor T).micro E) .stall k

/-- The holder of the mutex needs nobody for its next step. -/
theorem holder_moves (hh : c.st.holder = some t) : UnderWay c t ∧ Moving clients around bound c t := by
  have hnot : ¬ Outside t (c.st, w) := fun hout => hout.holder hh
  have htodo := h.todo t
  cases hp : c.prog t with
  | ret u =>
    simp only [hp] at htodo
    exact absurd (htodo _ .refl h.inv) hnot
  | raise e =>
    simp only [hp] at htodo
    exact (htodo _ .refl h.inv).elim
  | act a k =>
    have hpre : Guards t a (c.st, w) := h.next_pre hp
    have hgo (r : (monitor T).MicroRes E a) (y : (monitor T).State Tid ε)
        (hs : Monitor.microStep around t a r c.st y) : Moving clients around bound c t :=
      .inl (.inr ⟨a, k, r, y, hp, hs⟩)
    cases a with
    | lock => exact absurd hpre hnot
    | env e => exact absurd hpre hnot
    | lockShared => exact hpre.elim
    | unlockShared => exact hpre.elim
    | resume => exact absurd hh hpre.1
    | notifyOne => exact absurd hh hpre.1
    | notifyAll => exact absurd hh hpre.1
    | unlock => exact ⟨underWay h hpre.2 hnot, hgo () _ rfl⟩
    | sleep => exact ⟨underWay h hpre.2.1 hnot, hgo () _ rfl⟩
    | stall => exact ⟨underWay h hpre hnot, .inr ⟨k, hp⟩⟩
    | access a =>
      have hawake : t ∉ c.st.asleep := by
        cases a with
        | push x => exact hpre.2.1
        | empty | front | pop | swap | size | loadStopped | storeStopped => exact hpre.2
      refine ⟨underWay h hawake hnot, ?_⟩
      cases a with
      | empty | front | swap | size | loadStopped | pop => exact hgo _ _ ⟨_, ⟨rfl, rfl⟩, rfl⟩
      | push x => exact hgo () _ ⟨_, rfl, rfl⟩
      | storeStopped => exact hgo () _ ⟨_, rfl, rfl⟩

/-- As long as somebody is under way, somebody who is can go on. -/
theorem somebody_moves (ht : UnderWay c t) : ∃ u, UnderWay c u ∧ Moving clients around bound c u := by
  cases hholder : c.st.holder with
  | some u => exact ⟨u, holder_moves h hholder⟩
  | none =>
    refine ⟨t, ht, ?_⟩
    obtain ⟨-, a, k, hp, hlock, henv⟩ := ht
    have hpre : Guards t a (c.st, w) := h.next_pre hp
    have hnone : c.st.holder ≠ some t := by rw [hholder]; nofun
    have hgo (r : (monitor T).MicroRes E a) (y : (monitor T).State Tid ε)
        (hs : Monitor.microStep around t a r c.st y) : Moving clients around bound c t :=
      .inl (.inr ⟨a, k, r, y, hp, hs⟩)
    cases a with
    | lock => exact absurd rfl hlock
    | env e => exact absurd rfl (henv e)
    | lockShared => exact hpre.elim
    | unlockShared => exact hpre.elim
    | unlock => exact absurd hpre.1 hnone
    | sleep => exact absurd hpre.1 hnone
    | access a => exact absurd (by cases a <;> exact hpre.1) hnone
    | stall => exact .inr ⟨k, hp⟩
    | resume => exact hgo () _ ⟨hholder, h.inv.readers, rfl⟩
    | notifyAll => exact hgo () _ rfl
    | notifyOne =>
      by_cases hempty : c.st.asleep = ∅
      · exact hgo () _ (.inl ⟨hempty, rfl⟩)
      · obtain ⟨u, hu⟩ := Finset.nonempty_iff_ne_empty.mpr hempty
        exact hgo () _ (.inr ⟨u, hu, rfl⟩)

end

/-- **No wake-up is lost.** Whatever the threads do with the queue: while somebody sleeps in `wait_and_pop`, as many
threads are awake in the middle of a method as there are items; and if there is an item, or the queue is stopped,
one of the threads that are awake can go on, or has slept as often as it may try. -/
theorem no_lost_wakeup [IsEmpty E.Err] {v : ε}
    {tr : List (Event ((monitor T).micro E) Tid ((monitor T).State Tid ε))}
    {c : Config ((monitor T).micro E) Tid ((monitor T).State Tid ε)}
    (h : (Monitor.locking clients around bound).Run (.open ⟨[], false⟩ v) tr c) (hsleep : c.st.asleep ≠ ∅) :
    (∃ W : Finset Tid, c.st.data.queue.length ≤ W.card ∧ ∀ t ∈ W, UnderWay c t) ∧
    (c.st.data.queue ≠ [] ∨ c.st.data.stopped = true → ∃ t, UnderWay c t ∧
      ((Monitor.locking clients around bound).Goes c t ∨ bound ≤ Monitor.naps (Sys.own t tr))) := by
  have hopen : Wakes (((.open ⟨[], false⟩ v : (monitor T).State Tid ε), ⟨∅, ∅⟩) : Scene T Tid ε) :=
    ⟨rfl, fun _ h => absurd h (Finset.notMem_empty _), fun _ h => absurd h (Finset.notMem_empty _),
      fun _ => Nat.zero_le _, fun h => by cases h⟩
  have hrest (t : Tid) : Outside t (((.open ⟨[], false⟩ v : (monitor T).State Tid ε), ⟨∅, ∅⟩) : Scene T Tid ε) :=
    ⟨(by simp [Monitor.State.open]), Finset.notMem_empty t, Finset.notMem_empty t, Finset.notMem_empty t⟩
  obtain ⟨tr', w, hv⟩ := Outline.ghosted (O := wakes clients around bound) hopen hrest
    (fun t => does_client (clients t)) h
  have hcalled (t : Tid) (ht : t ∈ w.called) : UnderWay c t :=
    underWay hv (hv.inv.called t ht) fun hout => hout.called ht
  -- whoever is under way, somebody who is can make a step, if he has an attempt left
  have hgoes {t : Tid} (ht : UnderWay c t) : ∃ u, UnderWay c u ∧
      ((Monitor.locking clients around bound).Goes c u ∨ bound ≤ Monitor.naps (Sys.own u tr)) := by
    obtain ⟨u, hu, hgo | ⟨k, hk⟩⟩ := somebody_moves hv ht
    · exact ⟨u, hu, .inl hgo⟩
    · exact ⟨u, hu, .inr (Monitor.naps_of_stall (fun _ => rfl) h hk)⟩
  refine ⟨⟨w.called, hv.inv.enough hsleep, hcalled⟩, fun hsome => ?_⟩
  rcases hsome with hne | hst
  · have hpos : 0 < w.called.card := (List.length_pos_iff.mpr hne).trans_le (hv.inv.enough hsleep)
    obtain ⟨t, ht⟩ := Finset.card_pos.mp hpos
    exact hgoes (hcalled t ht)
  · obtain ⟨t, ht⟩ := Finset.nonempty_iff_ne_empty.mpr (hv.inv.ending hst hsleep)
    exact hgoes (underWay hv (hv.inv.stopping t ht) fun hout => hout.stopping ht)

/-- The threads of the run below. -/
inductive Role
  | taker
  | giver
  | stopper
  deriving DecidableEq

/-- The taker sleeps in `wait_and_pop`, the giver has pushed 7 and given the mutex back, and the stopper has set the flag:
nobody has notified anybody yet. -/
theorem no_lost_wakeup_push : ∃ (clients : Role → Prog ((monitor Nat).calls Monitor.nothing) Unit)
    (tr : List (Event ((monitor Nat).micro Monitor.nothing) Role ((monitor Nat).State Role Unit)))
    (c : Config ((monitor Nat).micro Monitor.nothing) Role ((monitor Nat).State Role Unit)),
    (Monitor.locking clients Monitor.inert 2).Run (.open (⟨[], false⟩ : Members Nat) ()) tr c ∧
      c.st.asleep = {.taker} ∧ c.st.data = ⟨[7], true⟩ ∧
      (∃ W : Finset Role, 1 ≤ W.card ∧ ∀ t ∈ W, UnderWay c t) ∧
      ∃ t, UnderWay c t ∧ ((Monitor.locking clients Monitor.inert 2).Goes c t ∨ 2 ≤ Monitor.naps (Sys.own t tr)) := by
  let clients : Role → Prog ((monitor Nat).calls Monitor.nothing) Unit := fun t =>
    if t = .taker then .act (.op .waitAndPop) fun _ => .ret ()
    else if t = .giver then .act (.op (.push 7)) fun _ => .ret ()
    else .act (.op .stop) fun _ => .ret ()
  let code := Monitor.locking (O := monitor Nat) (ε := Unit) clients Monitor.inert 2
  let state (q : List Nat) (b : Bool) (h : Option Role) (l : Finset Role) : (monitor Nat).State Role Unit :=
    ⟨(⟨q, b⟩ : Members Nat), h, ∅, l, ()⟩
  have hlock {q : List Nat} {b : Bool} {l : Finset Role} (t : Role) :
      code.step t .lock () (state q b none l) (state q b (some t) l) := ⟨rfl, rfl, rfl⟩
  have hunlock {q : List Nat} {b : Bool} {l : Finset Role} (t : Role) :
      code.step t .unlock () (state q b (some t) l) (state q b none l) := rfl
  have hstopped : code.step .taker (.access .loadStopped) false (state [] false (some .taker) ∅)
      (state [] false (some .taker) ∅) := ⟨_, ⟨rfl, rfl⟩, rfl⟩
  have hempty : code.step .taker (.access .empty) true (state [] false (some .taker) ∅)
      (state [] false (some .taker) ∅) := ⟨_, ⟨rfl, rfl⟩, rfl⟩
  have hsleep : code.step .taker .sleep () (state [] false (some .taker) ∅) (state [] false none {.taker}) := rfl
  have hpush : code.step .giver (.access (.push 7)) () (state [] false (some .giver) {.taker})
      (state [7] false (some .giver) {.taker}) := ⟨_, rfl, rfl⟩
  have hstop : code.step .stopper (.access .storeStopped) () (state [7] false (some .stopper) {.taker})
      (state [7] true (some .stopper) {.taker}) := ⟨_, rfl, rfl⟩
  have hstart : code.Run (state [] false none ∅) [] (code.start (state [] false none ∅)) := .start
  have hwait := (((hstart.call .taker () rfl (hlock _)).call .taker _ rfl hstopped).call .taker _ rfl hempty).call
    .taker () rfl hsleep
  have hgive := ((hwait.call .giver () rfl (hlock _)).call .giver () rfl hpush).call .giver () rfl (hunlock _)
  have hrun := ((hgive.call .stopper () rfl (hlock _)).call .stopper () rfl hstop).call .stopper () rfl (hunlock _)
  have hwake := no_lost_wakeup hrun (Finset.singleton_ne_empty Role.taker)
  exact ⟨clients, _, _, hrun, rfl, rfl, hwake.1, hwake.2 (.inl (List.cons_ne_nil 7 []))⟩

end ChatChannel.ProducerConsumerQueue
