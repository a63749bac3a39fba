import Mathlib.Data.Finset.Basic
import ChatChannel.Conc.Refine
import ChatChannel.Conc.Thread

/-!
# Monitors

An object with a mutex and a condition variable. A method takes the mutex, works on the members step by step
and gives it back on every way out; a method that cannot do its work yet goes to sleep instead and tries again
when it is woken. A method that only reads may share the mutex with other readers.

`Monitor.atomically` is the abstract object: a method is one call, and it makes the whole effect of a successful
attempt (`Method.Effect`). `Monitor.locking` is the code. The threads run arbitrary programs over the methods
and over calls that have nothing to do with the object. `Monitor.refines` says that no thread can tell the
two apart.

The programs here are finite, so a waiting method tries a bounded number of times and then stops for good; the
bound is arbitrary.
-/

set_option autoImplicit false

namespace Conc

/-- Whom a method wakes when it has given the mutex back. -/
inductive Wake
  | nobody
  | one
  | all
  deriving DecidableEq

section

variable {B : Sig} {δ α β : Type} (step : (a : B.Act) → B.Res a → δ → δ → Prop)

/-- What a program over accesses `step` comes to when nothing happens in between. -/
def Yields : Prog B α → δ → Except B.Err α → δ → Prop
  | .ret a, d, out, d' => out = .ok a ∧ d' = d
  | .raise e, d, out, d' => out = .error e ∧ d' = d
  | .act a k, d, out, d' => ∃ r d₁, step a r d d₁ ∧ Yields (k r) d₁ out d'

variable {step} {d d' : δ}

/-- An access with one outcome only. -/
theorem yields_act {a : B.Act} {k : B.Res a → Prog B α} {r : B.Res a} {d₁ : δ} {out : Except B.Err α}
    (h : ∀ q x, step a q d x ↔ q = r ∧ x = d₁) :
    Yields step (.act a k) d out d' ↔ Yields step (k r) d₁ out d' := by
  constructor
  · rintro ⟨q, x, hs, hk⟩
    obtain ⟨rfl, rfl⟩ := (h q x).mp hs
    exact hk
  · intro hk
    exact ⟨r, d₁, (h r d₁).mpr ⟨rfl, rfl⟩, hk⟩

/-- An access that changes nothing and may be answered in any way. -/
theorem yields_ask {a : B.Act} {k : B.Res a → Prog B α} {out : Except B.Err α}
    (h : ∀ q x, step a q d x ↔ x = d) :
    Yields step (.act a k) d out d' ↔ ∃ q, Yields step (k q) d out d' := by
  constructor
  · rintro ⟨q, x, hs, hk⟩
    obtain rfl := (h q x).mp hs
    exact ⟨q, hk⟩
  · rintro ⟨q, hk⟩
    exact ⟨q, d, (h q d).mpr rfl, hk⟩

/-- A sequence yields what its second part does, or the exception of its first. -/
theorem yields_bind {p : Prog B α} {f : α → Prog B β} {out : Except B.Err β} :
    Yields step (p.bind f) d out d' ↔ (∃ a d₁, Yields step p d (.ok a) d₁ ∧ Yields step (f a) d₁ out d') ∨
      ∃ e, out = .error e ∧ Yields step p d (.error e) d' := by
  induction p generalizing d with
  | ret a => simp [Yields]
  | raise e => simp [Yields, eq_comm]
  | act a k ih =>
    simp only [Prog.bind_act, Yields, ih]
    constructor
    · rintro ⟨r, d₁, hs, ⟨x, d₂, h⟩ | ⟨e, he, h⟩⟩
      · exact .inl ⟨x, d₂, ⟨r, d₁, hs, h.1⟩, h.2⟩
      · exact .inr ⟨e, he, r, d₁, hs, h⟩
    · rintro (⟨x, d₂, ⟨r, d₁, hs, h⟩, h'⟩ | ⟨e, he, r, d₁, hs, h⟩)
      · exact ⟨r, d₁, hs, .inl ⟨x, d₂, h, h'⟩⟩
      · exact ⟨r, d₁, hs, .inr ⟨e, he, h⟩⟩

/-- A method that always answers. -/
theorem yields_some {p : Prog B α} {out : Except B.Err (Option α)} :
    Yields step (p.bind fun b => .ret (some b)) d out d' ↔
      ∃ r : Except B.Err α, out = r.map some ∧ Yields step p d r d' := by
  rw [yields_bind]
  constructor
  · rintro (⟨b, d₁, h, rfl, rfl⟩ | ⟨e, rfl, h⟩)
    · exact ⟨.ok b, rfl, h⟩
    · exact ⟨.error e, rfl, h⟩
  · rintro ⟨r, rfl, h⟩
    cases r with
    | ok b => exact .inl ⟨b, d', h, rfl, rfl⟩
    | error e => exact .inr ⟨e, rfl, h⟩

end

/-- A method over accesses `step` to the members. -/
structure Method {B : Sig} {δ : Type} (step : (a : B.Act) → B.Res a → δ → δ → Prop) (β : Type) where
  /-- The mutex is taken shared. -/
  shared : Bool
  /-- What is done under the mutex; `none` when the method has to wait. -/
  attempt : Prog B (Option β)
  wake : Wake
  /-- An attempt that has to wait has changed nothing. -/
  waits : ∀ {d d'}, Yields step attempt d (.ok none) d' → d' = d
  /-- A method that shares the mutex reads only. -/
  reads : shared = true → attempt.All fun a => ∀ r d d', step a r d d' → d' = d

/-- A class of objects: its members, the accesses to them, and its methods. -/
structure Monitor where
  B : Sig
  δ : Type
  step : (a : B.Act) → B.Res a → δ → δ → Prop
  Op : Type
  Out : Op → Type
  method : (o : Op) → Method step (Out o)

/-- What an undisturbed execution of the method does. -/
def Method.Effect {B : Sig} {δ β : Type} {step : (a : B.Act) → B.Res a → δ → δ → Prop}
    (m : Method step β) (d : δ) (r : Except B.Err β) (d' : δ) : Prop :=
  Yields step m.attempt d (r.map some) d'

namespace Monitor

variable (O : Monitor) (E : Sig)

/-! ## The abstract object -/

/-- The calls of the programs: a method, or a call of the environment. -/
inductive Call
  | op (o : O.Op)
  | env (e : E.Act)

/-- A method may raise; what its caller does then is up to the caller. -/
abbrev Answer : O.Call E → Type
  | .op o => Except O.B.Err (O.Out o)
  | .env e => E.Res e

abbrev calls : Sig := ⟨O.Call E, O.Answer E, E.Err⟩

/-- An environment without calls. -/
abbrev nothing : Sig := ⟨Empty, Empty.elim, Empty⟩

abbrev inert {Tid ε : Type} : Tid → (e : nothing.Act) → nothing.Res e → ε → ε → Prop := fun _ e => e.elim

variable {O E} {Tid ε : Type} (clients : Tid → Prog (O.calls E) Unit)
  (around : Tid → (e : E.Act) → E.Res e → ε → ε → Prop)

/-- Every method `o` is one step, in which it does what `spec o` says. -/
def specified (spec : (o : O.Op) → O.δ → Except O.B.Err (O.Out o) → O.δ → Prop) :
    Sys (O.calls E) Tid (O.δ × ε) where
  body := clients
  step t a r s s' :=
    match a, r with
    | .op o, r => spec o s.1 r s'.1 ∧ s'.2 = s.2
    | .env e, r => s'.1 = s.1 ∧ around t e r s.2 s'.2

/-- Every method is one step, with the whole effect of a successful attempt. -/
abbrev atomically : Sys (O.calls E) Tid (O.δ × ε) := specified clients around fun o => (O.method o).Effect

variable {clients} {around} in
theorem atomically_eq {spec : (o : O.Op) → O.δ → Except O.B.Err (O.Out o) → O.δ → Prop}
    (h : ∀ o d r d', (O.method o).Effect d r d' ↔ spec o d r d') :
    atomically clients around = specified clients around spec := by
  have heffect : (fun o => (O.method o).Effect) = spec := by
    funext o d r d'
    exact propext (h o d r d')
  rw [atomically, heffect]

/-! ## The code -/

variable (O E) in
/-- The steps of the code. -/
inductive Micro
  | lock
  | unlock
  | lockShared
  | unlockShared
  | sleep
  | resume
  | notifyOne
  | notifyAll
  | stall
  | access (a : O.B.Act)
  | env (e : E.Act)

variable (O E) in
abbrev MicroRes : O.Micro E → Type
  | .access a => O.B.Res a
  | .env e => E.Res e
  | .stall => Empty
  | _ => Unit

variable (O E) in
abbrev micro : Sig := ⟨O.Micro E, O.MicroRes E, E.Err⟩

/-- One step of the code. -/
abbrev atom (a : O.Micro E) : Prog (O.micro E) (O.MicroRes E a) := Prog.perform (S := O.micro E) a

variable (O Tid ε) in
/-- The object with its mutex and condition variable, and the rest of the world. -/
structure State where
  data : O.δ
  /-- Who holds the mutex alone, and who shares it. -/
  holder : Option Tid
  readers : Finset Tid
  /-- Who sleeps on the condition variable. -/
  asleep : Finset Tid
  env : ε

/-- The accesses of a method, its exceptions caught. -/
def guarded {β : Type} : Prog O.B β → Prog (O.micro E) (Except O.B.Err β)
  | .ret b => .ret (.ok b)
  | .raise e => .ret (.error e)
  | .act a k => .act (.access a) fun r => guarded (k r)

/-- `notify_one` or `notify_all`, which nobody waits for. -/
def notify : Wake → Prog (O.micro E) Unit
  | .nobody => .ret ()
  | .one => atom .notifyOne
  | .all => atom .notifyAll

/-- The end of a method. Only a method that returns wakes others. -/
def finish {β : Type} (w : Wake) : Except O.B.Err β → Prog (O.micro E) (Except O.B.Err β)
  | .ok b => do
    atom .unlock
    notify w
    pure (.ok b)
  | .error e => do
    atom .unlock
    pure (.error e)

/-- Under the mutex: attempts until one succeeds. -/
def attempts {β : Type} (m : Method O.step β) : Nat → Prog (O.micro E) (Except O.B.Err β)
  | 0 => .act .stall nofun
  | n + 1 => (guarded m.attempt).bind fun r =>
    match r with
    | .ok (some b) => finish m.wake (.ok b)
    | .ok none => do
      atom .sleep
      atom .resume
      attempts m n
    | .error e => finish m.wake (.error e)

/-- The end of a method that shares the mutex. -/
def leave {β : Type} : Except O.B.Err (Option β) → Prog (O.micro E) (Except O.B.Err β)
  | .ok (some b) => do
    atom .unlockShared
    pure (.ok b)
  | .ok none => .act .stall nofun
  | .error e => do
    atom .unlockShared
    pure (.error e)

/-- A method of the class. -/
def invoke {β : Type} (m : Method O.step β) (bound : Nat) : Prog (O.micro E) (Except O.B.Err β) :=
  if m.shared then do
    atom .lockShared
    leave (← guarded m.attempt)
  else do
    atom .lock
    attempts m bound

/-- The code of a call. -/
def codeOf (bound : Nat) : (a : O.Call E) → Prog (O.micro E) (O.Answer E a)
  | .op o => invoke (O.method o) bound
  | .env e => atom (.env e)

variable [DecidableEq Tid]

/-- One step of thread `t`. A sleeping thread may go on without being woken. -/
def microStep (t : Tid) : (a : O.Micro E) → O.MicroRes E a → O.State Tid ε → O.State Tid ε → Prop
  | .lock, _, x, y => x.holder = none ∧ x.readers = ∅ ∧ y = { x with holder := some t }
  | .unlock, _, x, y => y = { x with holder := none }
  | .lockShared, _, x, y => x.holder = none ∧ y = { x with readers := insert t x.readers }
  | .unlockShared, _, x, y => y = { x with readers := x.readers.erase t }
  | .sleep, _, x, y => y = { x with holder := none, asleep := insert t x.asleep }
  | .resume, _, x, y =>
    x.holder = none ∧ x.readers = ∅ ∧ y = { x with holder := some t, asleep := x.asleep.erase t }
  | .notifyOne, _, x, y =>
    x.asleep = ∅ ∧ y = x ∨ ∃ u ∈ x.asleep, y = { x with asleep := x.asleep.erase u }
  | .notifyAll, _, x, y => y = { x with asleep := ∅ }
  | .stall, r, _, _ => r.elim
  | .access a, r, x, y => ∃ d, O.step a r x.data d ∧ y = { x with data := d }
  | .env e, r, x, y => ∃ v, around t e r x.env v ∧ y = { x with env := v }

/-- The methods as the code has them. -/
def locking (bound : Nat) : Sys (O.micro E) Tid (O.State Tid ε) where
  body t := (clients t).expand (S := O.calls E) (L := O.micro E) id (codeOf bound)
  step := microStep around

/-- Nobody has the mutex, and nobody sleeps. -/
def State.open (d : O.δ) (v : ε) : O.State Tid ε := ⟨d, none, ∅, ∅, v⟩

/-! ## No thread can tell the two apart -/

section

variable {clients} {around} {bound : Nat}

/-- Who does not hold the mutex sees the members of the abstract object; nobody holds it alone while others read. -/
structure Fits (x : O.State Tid ε) (s : O.δ × ε) : Prop where
  env : x.env = s.2
  data : x.holder = none → x.data = s.1
  apart : x.readers ≠ ∅ → x.holder = none

/-- Thread `u` keeps the mutex if it has it, and nothing changes as long as it has. -/
structure Spares (u : Tid) (p q : O.State Tid ε × (O.δ × ε)) : Prop where
  holder : p.1.holder = some u → q.1.holder = some u
  readers : u ∈ p.1.readers → u ∈ q.1.readers
  same : p.1.holder = some u ∨ u ∈ p.1.readers → q.1.data = p.1.data ∧ q.2.1 = p.2.1

variable (clients around bound) in
def refinement : Refinement (atomically clients around) (locking clients around bound) where
  err := id
  impl _ := codeOf bound
  Link := Fits
  Guar t p q := ∀ u, u ≠ t → Spares u p q

variable {t u : Tid} {p q : O.State Tid ε × (O.δ × ε)} {x y : O.State Tid ε} {s s' : O.δ × ε} {o : O.Op}

omit [DecidableEq Tid] in
theorem Spares.refl (p : O.State Tid ε × (O.δ × ε)) : Spares u p p := ⟨id, id, fun _ => ⟨rfl, rfl⟩⟩

omit [DecidableEq Tid] in
theorem Spares.trans {r : O.State Tid ε × (O.δ × ε)} (h : Spares u p q) (h' : Spares u q r) : Spares u p r where
  holder hu := h'.holder (h.holder hu)
  readers hu := h'.readers (h.readers hu)
  same hu := by
    obtain ⟨hd, hs⟩ := h.same hu
    obtain ⟨hd', hs'⟩ := h'.same (hu.imp h.holder h.readers)
    exact ⟨hd'.trans hd, hs'.trans hs⟩

theorem spared (h : (refinement clients around bound).Rely t p q) : Spares t p q := by
  induction h with
  | refl => exact .refl p
  | tail _ hstep ih =>
    obtain ⟨u, hu, hguar⟩ := hstep
    exact ih.trans (hguar t hu.symm)

/-- What the holder does concerns nobody else. -/
theorem moves_holder (hx : Fits x s) (hh : x.holder = some t) (hy : Fits y s') :
    (refinement clients around bound).Moves t (x, s) (y, s') := by
  have hempty : x.readers = ∅ := by
    by_contra hne
    have hnone := hx.apart hne
    rw [hh] at hnone
    cases hnone
  have hothers (u : Tid) (hu : u ≠ t) : ¬ (x.holder = some u ∨ u ∈ x.readers) := by
    rintro (h | h)
    · rw [hh] at h
      exact hu (Option.some.inj h).symm
    · rw [hempty] at h
      exact absurd h (Finset.notMem_empty u)
  refine ⟨hy, fun u hu => ⟨fun h => absurd (.inl h) (hothers u hu), fun h => absurd (.inr h) (hothers u hu),
    fun h => absurd h (hothers u hu)⟩⟩

/-- A step that leaves the mutex and the members alone. -/
theorem moves_aside (hy : Fits y s') (hholder : y.holder = x.holder)
    (hreaders : ∀ u, u ≠ t → u ∈ x.readers → u ∈ y.readers) (hdata : y.data = x.data) (hs : s'.1 = s.1) :
    (refinement clients around bound).Moves t (x, s) (y, s') :=
  ⟨hy, fun u hu => ⟨fun h => hholder.trans h, hreaders u hu, fun _ => ⟨hdata, hs⟩⟩⟩

/-! ### After the call -/

theorem settled_notify {β : Type} (w : Wake) (r : β) (p : O.State Tid ε × (O.δ × ε)) :
    (refinement clients around bound).settled t r ((notify w).bind fun _ => .ret r) p := by
  cases w with
  | nobody => exact rfl
  | one =>
    rintro ⟨x, s⟩ - hfit _ y hstep
    refine ⟨?_, rfl⟩
    rcases hstep with ⟨-, rfl⟩ | ⟨u, -, rfl⟩
    · exact moves_aside hfit rfl (fun _ _ h => h) rfl rfl
    · exact moves_aside ⟨hfit.env, hfit.data, hfit.apart⟩ rfl (fun _ _ h => h) rfl rfl
  | all =>
    rintro ⟨x, s⟩ - hfit - y rfl
    exact ⟨moves_aside ⟨hfit.env, hfit.data, hfit.apart⟩ rfl (fun _ _ h => h) rfl rfl, rfl⟩

/-- The call happens when the mutex is given back. -/
theorem pending_finish {r : Except O.B.Err (O.Out o)} (hh : p.1.holder = some t)
    (heffect : (O.method o).Effect p.2.1 r p.1.data) :
    (refinement clients around bound).pending t (.op o) (finish (O.method o).wake r) p := by
  have hunlock (k : Unit → Prog (O.micro E) (Except O.B.Err (O.Out o)))
      (hk : ∀ q, (refinement clients around bound).settled t r (k ()) q) :
      (refinement clients around bound).pending t (.op o) (.act .unlock k) p := by
    rintro ⟨x, s⟩ hrely hfit - y rfl
    have hsp := spared hrely
    obtain ⟨hd, hs⟩ := hsp.same (.inl hh)
    refine .inr ⟨r, (x.data, s.2), ⟨?_, rfl⟩, ?_, hk _⟩
    · have hd' : x.data = p.1.data := hd
      have hs' : s.1 = p.2.1 := hs
      rw [hd', hs']
      exact heffect
    · exact moves_holder hfit (hsp.holder hh) ⟨hfit.env, fun _ => rfl, fun _ => rfl⟩
  cases r with
  | ok b => exact hunlock _ fun q => settled_notify _ _ q
  | error e => exact hunlock _ fun q => rfl

/-! ### Under the mutex -/

/-- The holder goes through a program; what follows is up to the end it comes to. -/
theorem pending_guarded {β : Type} {c : Prog O.B β}
    {k : Except O.B.Err β → Prog (O.micro E) (Except O.B.Err (O.Out o))} (hh : p.1.holder = some t)
    (hk : ∀ (r : Except O.B.Err β) (q : O.State Tid ε × (O.δ × ε)),
      Yields O.step c p.1.data r q.1.data → q.1.holder = some t → q.2.1 = p.2.1 →
      (refinement clients around bound).pending t (.op o) (k r) q) :
    (refinement clients around bound).pending t (.op o) ((guarded c).bind k) p := by
  induction c generalizing p with
  | ret b => exact hk (.ok b) p ⟨rfl, rfl⟩ hh rfl
  | raise e => exact hk (.error e) p ⟨rfl, rfl⟩ hh rfl
  | act a f ih =>
    rintro ⟨x, s⟩ hrely hfit r y ⟨d, hstep, rfl⟩
    have hsp := spared hrely
    obtain ⟨hd, hs⟩ := hsp.same (.inl hh)
    have hx : x.holder = some t := hsp.holder hh
    have hheld (hnone : x.holder = none) : False := by
      rw [hx] at hnone
      cases hnone
    have hfit' : Fits { x with data := d } s :=
      ⟨hfit.env, fun hnone => (hheld hnone).elim, fun hne => (hheld (hfit.apart hne)).elim⟩
    refine .inl ⟨moves_holder hfit hx hfit', ih r hx fun r' q hyields hq hqs => ?_⟩
    refine hk r' q ⟨r, d, ?_, hyields⟩ hq (hqs.trans hs)
    have hd' : x.data = p.1.data := hd
    rw [← hd']
    exact hstep

theorem pending_attempts {n : Nat} (hh : p.1.holder = some t) (hd : p.1.data = p.2.1) :
    (refinement clients around bound).pending t (.op o) (attempts (O.method o) n) p := by
  induction n generalizing p with
  | zero => exact fun _ _ _ r _ _ => r.elim
  | succ n ih =>
    refine pending_guarded hh fun r q hyields hq hqs => ?_
    have heffect {r' : Except O.B.Err (O.Out o)} (hr : r = r'.map some) :
        (O.method o).Effect q.2.1 r' q.1.data := by
      rw [hqs, ← hd]
      show Yields O.step (O.method o).attempt p.1.data (r'.map some) q.1.data
      rw [← hr]
      exact hyields
    match r with
    | .error e => exact pending_finish (r := .error e) hq (heffect rfl)
    | .ok (some b) => exact pending_finish (r := .ok b) hq (heffect rfl)
    | .ok none =>
      have hsame : q.1.data = q.2.1 := ((O.method o).waits hyields).trans (hd.trans hqs.symm)
      -- it sleeps with the members as it found them
      rintro ⟨x, s⟩ hrely hfit - y rfl
      have hsp := spared hrely
      obtain ⟨hd', hs'⟩ := hsp.same (.inl hq)
      have hx : x.data = s.1 := (hd'.trans hsame).trans hs'.symm
      refine .inl ⟨moves_holder hfit (hsp.holder hq) ⟨hfit.env, fun _ => hx, fun _ => rfl⟩, ?_⟩
      rintro ⟨x', s'⟩ - hfit' - y ⟨hfree, hreaders, rfl⟩
      refine .inl ⟨⟨⟨hfit'.env, fun h => (nomatch h), fun h => absurd hreaders h⟩, fun u _ => ?_⟩,
        ih rfl (hfit'.data hfree)⟩
      refine ⟨fun h => ?_, fun h => h, fun _ => ⟨rfl, rfl⟩⟩
      rw [show x'.holder = none from hfree] at h
      cases h

/-- A reader goes through a program that only reads, and the call happens when it leaves. -/
theorem pending_reading {c : Prog O.B (Option (O.Out o))} {d : O.δ}
    (hall : c.All fun a => ∀ r d d', O.step a r d d' → d' = d) (hh : t ∈ p.1.readers) (hd : p.1.data = d)
    (hs : p.2.1 = d)
    (heffect : ∀ r, Yields O.step c d (r.map some) d → (O.method o).Effect d r d) :
    (refinement clients around bound).pending t (.op o) ((guarded c).bind leave) p := by
  have hleave {p : O.State Tid ε × (O.δ × ε)} {r : Except O.B.Err (O.Out o)} (hh : t ∈ p.1.readers)
      (hs : p.2.1 = d) (h : (O.method o).Effect d r d) :
      (refinement clients around bound).pending t (.op o) (.act .unlockShared fun _ => .ret r) p := by
    rintro ⟨x, s⟩ hrely hfit - y rfl
    have hsp := spared hrely
    obtain ⟨hd', hs'⟩ := hsp.same (.inr hh)
    have hs₀ : s.1 = d := hs'.trans hs
    have hnone : x.holder = none := hfit.apart (Finset.ne_empty_of_mem (hsp.readers hh))
    refine .inr ⟨r, s, ⟨by rw [hs₀]; exact h, rfl⟩, ?_, rfl⟩
    exact moves_aside ⟨hfit.env, hfit.data, fun _ => hnone⟩ rfl
      (fun u hu hmem => Finset.mem_erase.mpr ⟨hu, hmem⟩) rfl rfl
  induction c generalizing p with
  | ret b =>
    cases b with
    | none => exact fun _ _ _ r _ _ => r.elim
    | some b => exact hleave hh hs (heffect (.ok b) ⟨rfl, rfl⟩)
  | raise e => exact hleave hh hs (heffect (.error e) ⟨rfl, rfl⟩)
  | act a f ih =>
    rintro ⟨x, s⟩ hrely hfit r y ⟨d₁, hstep, rfl⟩
    have hsp := spared hrely
    obtain ⟨hd', hs'⟩ := hsp.same (.inr hh)
    have hx : x.data = d := hd'.trans hd
    obtain rfl : d₁ = x.data := hall.1 r _ _ hstep
    refine .inl ⟨moves_aside hfit rfl (fun _ _ h => h) rfl rfl, ?_⟩
    exact ih r (hall.2 r) (hsp.readers hh) hx (hs'.trans hs) fun r' hyields =>
      heffect r' ⟨r, d, by rw [hx] at hstep; exact hstep, hyields⟩

theorem pending_codeOf (a : O.Call E) :
    (refinement clients around bound).pending t a (codeOf bound a) p := by
  cases a with
  | env e =>
    rintro ⟨x, s⟩ - hfit r y ⟨w, hstep, rfl⟩
    refine .inr ⟨r, (s.1, w), ⟨rfl, ?_⟩, moves_aside ⟨rfl, hfit.data, hfit.apart⟩ rfl (fun _ _ h => h) rfl rfl, rfl⟩
    rw [← hfit.env]
    exact hstep
  | op o =>
    show (refinement clients around bound).pending t (.op o) (invoke (O.method o) bound) p
    unfold invoke
    split
    case isTrue hshared =>
      rintro ⟨x, s⟩ - hfit - y ⟨hfree, rfl⟩
      have hd : x.data = s.1 := hfit.data hfree
      refine .inl ⟨moves_aside ⟨hfit.env, hfit.data, fun _ => hfree⟩ rfl
        (fun _ _ h => Finset.mem_insert_of_mem h) rfl rfl, ?_⟩
      exact pending_reading (d := s.1) ((O.method o).reads hshared) (Finset.mem_insert_self t _) hd rfl
        fun r h => h
    case isFalse =>
      rintro ⟨x, s⟩ - hfit - y ⟨hfree, hreaders, rfl⟩
      have hd : x.data = s.1 := hfit.data hfree
      refine .inl ⟨⟨⟨hfit.env, fun h => (nomatch h), fun h => absurd hreaders h⟩, fun u _ => ?_⟩,
        pending_attempts rfl hd⟩
      refine ⟨fun h => ?_, fun h => h, fun _ => ⟨rfl, rfl⟩⟩
      rw [show x.holder = none from hfree] at h
      cases h

end

variable {clients} {around} in
/-- **Methods under the mutex are atomic.** For any programs of any number of threads and any environment, each
run of the code is matched by a run in which every method is one step, with the same answers, and the same members
whenever nobody holds the mutex. -/
theorem refines {bound : Nat} {d : O.δ} {v : ε} {tr : List (Event (O.micro E) Tid (O.State Tid ε))}
    {c : Config (O.micro E) Tid (O.State Tid ε)} (h : (locking clients around bound).Run (.open d v) tr c) :
    ∃ tr' c', (atomically clients around).Run (d, v) tr' c' ∧ Fits c.st c'.st ∧
      ∀ t, (refinement clients around bound).Stands t (c.st, c'.st) (c.prog t) (c'.prog t) :=
  (refinement clients around bound).run (fun _ a _ _ => pending_codeOf a) (fun _ => rfl)
    ⟨rfl, fun _ => rfl, fun h => absurd rfl h⟩ h

variable {clients} {around} in
/-- The same for a description of what the methods do. -/
theorem refines_spec {spec : (o : O.Op) → O.δ → Except O.B.Err (O.Out o) → O.δ → Prop}
    (hspec : ∀ o d r d', (O.method o).Effect d r d' ↔ spec o d r d') {bound : Nat} {d : O.δ} {v : ε}
    {tr : List (Event (O.micro E) Tid (O.State Tid ε))} {c : Config (O.micro E) Tid (O.State Tid ε)}
    (h : (locking clients around bound).Run (.open d v) tr c) :
    ∃ tr' c', (specified clients around spec).Run (d, v) tr' c' ∧ Fits c.st c'.st ∧
      ∀ t, (refinement clients around bound).Stands t (c.st, c'.st) (c.prog t) (c'.prog t) := by
  obtain ⟨tr', c', hrun, hfit, hstands⟩ := refines h
  rw [atomically_eq hspec] at hrun
  exact ⟨tr', c', hrun, hfit, hstands⟩

/-! ## Attempts that are used up -/

section

def Micro.isSleep : O.Micro E → Bool
  | .sleep => true
  | _ => false

/-- How often a thread went to sleep. -/
def naps (h : Hist (O.micro E)) : Nat := h.countP fun e => e.1.isSleep

theorem naps_le_snoc (h : Hist (O.micro E)) (e : (a : O.Micro E) × O.MicroRes E a) : naps h ≤ naps (h ++ [e]) := by
  rw [naps, naps, List.countP_append]
  exact Nat.le_add_right _ _

theorem naps_sleep (h : Hist (O.micro E)) (r : Unit) : naps (h ++ [⟨.sleep, r⟩]) = naps h + 1 := by
  rw [naps, naps, List.countP_append]
  rfl

/-- Every step but the one at which a thread stops for good. -/
def Micro.Awake : O.Micro E → Prop
  | .stall => False
  | _ => True

/-- A thread stops for good only after it slept `bound` times. -/
def tired (bound : Nat) : Contract (O.micro E) where
  before a h := a.Awake ∨ bound ≤ naps h
  expects _ _ := True

variable {clients} {around} {bound n : Nat} {β : Type} {t : Tid}

theorem abides_awake {α : Type} {p : Prog (O.micro E) α} (hp : p.All Micro.Awake) :
    Abides (tired bound) (fun h => n ≤ naps h) p (fun _ h => n ≤ naps h) fun _ h => n ≤ naps h :=
  .keep hp (fun _ _ ha _ => .inl ha) fun a r h _ _ hn => hn.trans (naps_le_snoc h ⟨a, r⟩)

theorem guarded_awake (p : Prog O.B β) : (guarded (E := E) p).All Micro.Awake := by
  induction p with
  | ret b => trivial
  | raise e => trivial
  | act a k ih => exact ⟨trivial, ih⟩

theorem notify_awake (w : Wake) : (notify (O := O) (E := E) w).All Micro.Awake := by
  cases w with
  | nobody => trivial
  | one => exact ⟨trivial, fun _ => trivial⟩
  | all => exact ⟨trivial, fun _ => trivial⟩

theorem finish_awake (w : Wake) (r : Except O.B.Err β) : (finish (E := E) w r).All Micro.Awake := by
  cases r with
  | ok b => exact .bind (.perform trivial) fun _ => .bind (notify_awake w) fun _ => trivial
  | error e => exact ⟨trivial, fun _ => trivial⟩

/-- Each attempt but the first comes after a sleep. -/
theorem abides_attempts (m : Method O.step β) (n : Nat) :
    Abides (tired bound) (fun h => bound ≤ naps h + n) (attempts (E := E) m n) (fun _ _ => True) fun _ _ => True := by
  induction n with
  | zero => exact .act (V := fun _ _ => False) (fun h hn => .inr hn) (fun r => Empty.elim r) fun r => Empty.elim r
  | succ n ih =>
    have hstart : Abides (tired bound) (fun h => bound ≤ naps h + (n + 1)) (guarded (E := E) m.attempt)
        (fun _ h => bound - (n + 1) ≤ naps h) fun _ _ => True :=
      (abides_awake (n := bound - (n + 1)) (guarded_awake m.attempt)).conseq
        (fun h hn => Nat.sub_le_of_le_add hn) (fun _ _ h => h) fun _ _ _ => trivial
    have hend (r : Except O.B.Err β) : Abides (tired bound) (fun h => bound - (n + 1) ≤ naps h)
        (finish (E := E) m.wake r) (fun _ _ => True) fun _ _ => True :=
      (abides_awake (finish_awake m.wake r)).conseq (fun _ h => h) (fun _ _ _ => trivial) fun _ _ _ => trivial
    refine hstart.bind fun r => ?_
    rcases r with e | _ | b
    · exact hend (.error e)
    · refine .bind (Q := fun _ h => bound ≤ naps h + n) (.perform (fun _ _ => .inl trivial) fun r h _ hn => ?_)
        fun _ => .bind (Q := fun _ h => bound ≤ naps h + n) (.perform (fun _ _ => .inl trivial) fun r h _ hn => ?_)
          fun _ => ih
      · rw [naps_sleep]
        omega
      · exact hn.trans (Nat.add_le_add_right (naps_le_snoc h _) n)
    · exact hend (.ok b)

theorem abides_codeOf (hexcl : ∀ o, (O.method o).shared = false) (a : O.Call E) :
    Abides (tired bound) (fun _ => True) (codeOf (E := E) bound a) (fun _ _ => True) fun _ _ => True := by
  cases a with
  | op o =>
    show Abides _ _ (invoke (O.method o) bound) _ _
    rw [invoke, hexcl o]
    exact .bind (Q := fun _ _ => True) (.perform (fun _ _ => .inl trivial) fun _ _ _ _ => trivial) fun _ =>
      (abides_attempts _ bound).pre fun h _ => Nat.le_add_left bound (naps h)
  | env e => exact .perform (fun _ _ => .inl trivial) fun _ _ _ _ => trivial

theorem abides_expand (hexcl : ∀ o, (O.method o).shared = false) (p : Prog (O.calls E) Unit) :
    Abides (tired bound) (fun _ => True) (p.expand (S := O.calls E) (L := O.micro E) id (codeOf bound))
      (fun _ _ => True) fun _ _ => True := by
  induction p with
  | ret u => exact .ret fun _ _ => trivial
  | raise e => exact .raise fun _ _ => trivial
  | act a k ih => exact (abides_codeOf hexcl a).bind ih

/-- **A thread that stopped for good slept `bound` times.** -/
theorem naps_of_stall (hexcl : ∀ o, (O.method o).shared = false) {s : O.State Tid ε}
    {tr : List (Event (O.micro E) Tid (O.State Tid ε))} {c : Config (O.micro E) Tid (O.State Tid ε)}
    (h : (locking clients around bound).Run s tr c) {k : Empty → Prog (O.micro E) Unit}
    (hp : c.prog t = .act .stall k) : bound ≤ naps (Sys.own t tr) := by
  have hobeys := (h.keeps (t := t) (K := tired bound) (L := fun _ => True) trivial
    (abides_expand hexcl (clients t)) fun _ _ _ => trivial).1
  rw [hp] at hobeys
  exact hobeys.1.resolve_left id

end

end Monitor

end Conc
