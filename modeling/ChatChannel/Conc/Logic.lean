import Mathlib.Logic.Relation
import ChatChannel.Conc.System

/-!
# Rely-guarantee reasoning

An `Outline` of a system is a global invariant `Inv` together with a precondition `Pre` of every
call: what the thread that makes the call guarantees at that moment. The obligation `pres` is
about single calls and is proved by looking at what each call does to the state. What is left is
that every program makes its calls only where their preconditions hold; that is a proof about
program text, and `Triple t P p Q E` is its judgment:

> started in a state with `P`, thread `t` running `p` makes every call under its precondition,
> and ends with `Q` on a return and `E` on an exception, whatever the other threads do between
> the calls, as long as they too respect `Pre`.

An assertion between two calls has to survive the other threads (`Stable`). `Outline.sound` is
the payoff: on every run the invariant holds in every state, and every event happened under the
precondition of its call.
-/

set_option autoImplicit false

namespace Conc

variable {S : Sig} {Tid σ α β : Type}

/-- A global invariant and the calls' preconditions that keep it. -/
structure Outline (M : Sys S Tid σ) where
  Inv : σ → Prop
  Pre : Tid → S.Act → σ → Prop
  pres : ∀ {t a r s s'}, Inv s → Pre t a s → M.step t a r s s' → Inv s'

namespace Outline

variable {M : Sys S Tid σ} (O : Outline M)

/-- One call of a thread other than `t`. -/
def Interf (t : Tid) (s s' : σ) : Prop :=
  ∃ u, u ≠ t ∧ ∃ a r, O.Inv s ∧ O.Pre u a s ∧ M.step u a r s s'

/-- What the other threads may do while `t` waits. -/
def Rely (t : Tid) : σ → σ → Prop := Relation.ReflTransGen (O.Interf t)

/-- `P` survives the calls of the threads other than `t`. -/
def Stable (t : Tid) (P : σ → Prop) : Prop :=
  ∀ {u a r s s'}, u ≠ t → O.Inv s → O.Pre u a s → M.step u a r s s' → O.Inv s' → P s → P s'

/-- Thread `t`, running `p` from `s`, respects the preconditions and ends in `Q` or `E`. -/
def wp (t : Tid) : Prog S α → (α → σ → Prop) → (S.Err → σ → Prop) → σ → Prop
  | .ret a, Q, _, s => ∀ s', O.Rely t s s' → O.Inv s' → Q a s'
  | .raise e, _, E, s => ∀ s', O.Rely t s s' → O.Inv s' → E e s'
  | .act a k, Q, E, s => ∀ s', O.Rely t s s' → O.Inv s' → O.Pre t a s' ∧
      ∀ r s'', M.step t a r s' s'' → O.Inv s'' → wp t (k r) Q E s''

/-- The judgment of the logic. -/
def Triple (t : Tid) (P : σ → Prop) (p : Prog S α) (Q : α → σ → Prop) (E : S.Err → σ → Prop) :
    Prop :=
  ∀ s, O.Inv s → P s → O.wp t p Q E s

variable {O} {t : Tid}

theorem Stable.rely {P : σ → Prop} (hst : O.Stable t P) {s s' : σ} (hP : P s)
    (h : O.Rely t s s') : P s' := by
  induction h with
  | refl => exact hP
  | tail _ hstep ih =>
    obtain ⟨u, hu, a, r, hi, hp, hs⟩ := hstep
    exact hst hu hi hp hs (O.pres hi hp hs) ih

theorem Stable.const {P : Prop} : O.Stable t fun _ => P := fun _ _ _ _ _ h => h

theorem Stable.and {P Q : σ → Prop} (hP : O.Stable t P) (hQ : O.Stable t Q) :
    O.Stable t fun s => P s ∧ Q s :=
  fun hu hi hp hs hi' h => ⟨hP hu hi hp hs hi' h.1, hQ hu hi hp hs hi' h.2⟩

theorem Stable.or {P Q : σ → Prop} (hP : O.Stable t P) (hQ : O.Stable t Q) :
    O.Stable t fun s => P s ∨ Q s :=
  fun hu hi hp hs hi' h => h.imp (hP hu hi hp hs hi') (hQ hu hi hp hs hi')

theorem Stable.imp {φ : Prop} {P : σ → Prop} (hP : O.Stable t P) :
    O.Stable t fun s => φ → P s :=
  fun hu hi hp hs hi' h hφ => hP hu hi hp hs hi' (h hφ)

theorem Stable.all {ι : Type} {P : ι → σ → Prop} (hP : ∀ i, O.Stable t (P i)) :
    O.Stable t fun s => ∀ i, P i s :=
  fun hu hi hp hs hi' h i => hP i hu hi hp hs hi' (h i)

theorem Stable.ex {ι : Type} {P : ι → σ → Prop} (hP : ∀ i, O.Stable t (P i)) :
    O.Stable t fun s => ∃ i, P i s :=
  fun hu hi hp hs hi' h => let ⟨i, h⟩ := h; ⟨i, hP i hu hi hp hs hi' h⟩

/-! ## `wp` is closed under the rely and under consequence -/

theorem wp_rely {p : Prog S α} {Q : α → σ → Prop} {E : S.Err → σ → Prop} {s s' : σ}
    (h : O.wp t p Q E s) (hr : O.Rely t s s') : O.wp t p Q E s' := by
  cases p with
  | ret a => exact fun s'' hr' hi => h s'' (hr.trans hr') hi
  | raise e => exact fun s'' hr' hi => h s'' (hr.trans hr') hi
  | act a k => exact fun s'' hr' hi => h s'' (hr.trans hr') hi

theorem wp_mono {p : Prog S α} {Q B : α → σ → Prop} {E D : S.Err → σ → Prop} {s : σ}
    (h : O.wp t p Q E s) (hQ : ∀ a s, O.Inv s → Q a s → B a s)
    (hE : ∀ e s, O.Inv s → E e s → D e s) : O.wp t p B D s := by
  induction p generalizing s with
  | ret a => exact fun s' hr hi => hQ a s' hi (h s' hr hi)
  | raise e => exact fun s' hr hi => hE e s' hi (h s' hr hi)
  | act a k ih =>
    intro s' hr hi
    obtain ⟨hp, hk⟩ := h s' hr hi
    exact ⟨hp, fun r s'' hs hi' => ih r (hk r s'' hs hi')⟩

theorem wp_bind {p : Prog S α} {f : α → Prog S β} {Q : α → σ → Prop} {R : β → σ → Prop}
    {E : S.Err → σ → Prop} {s : σ} (hi : O.Inv s) (h : O.wp t p Q E s)
    (hf : ∀ a s, O.Inv s → Q a s → O.wp t (f a) R E s) : O.wp t (p.bind f) R E s := by
  induction p generalizing s with
  | ret a => exact hf a s hi (h s .refl hi)
  | raise e => exact h
  | act a k ih =>
    intro s' hr hi'
    obtain ⟨hp, hk⟩ := h s' hr hi'
    exact ⟨hp, fun r s'' hs hi'' => ih r hi'' (hk r s'' hs hi'')⟩

theorem wp_handle {p : Prog S α} {h : S.Err → Prog S α} {Q : α → σ → Prop}
    {E D : S.Err → σ → Prop} {s : σ} (hi : O.Inv s) (hp : O.wp t p Q E s)
    (hh : ∀ e s, O.Inv s → E e s → O.wp t (h e) Q D s) : O.wp t (p.handle h) Q D s := by
  induction p generalizing s with
  | ret a => exact hp
  | raise e => exact hh e s hi (hp s .refl hi)
  | act a k ih =>
    intro s' hr hi'
    obtain ⟨hp', hk⟩ := hp s' hr hi'
    exact ⟨hp', fun r s'' hs hi'' => ih r hi'' (hk r s'' hs hi'')⟩

/-! ## The rules -/

section Rules

variable {P A : σ → Prop} {Q B : α → σ → Prop} {R : β → σ → Prop} {E D : S.Err → σ → Prop}

theorem Triple.conseq {p : Prog S α} (h : O.Triple t A p B D)
    (hP : ∀ s, O.Inv s → P s → A s) (hQ : ∀ a s, O.Inv s → B a s → Q a s)
    (hE : ∀ e s, O.Inv s → D e s → E e s) : O.Triple t P p Q E :=
  fun s hi hs => wp_mono (h s hi (hP s hi hs)) hQ hE

/-- Strengthen the precondition only. -/
theorem Triple.pre {p : Prog S α} (h : O.Triple t A p Q E) (hP : ∀ s, O.Inv s → P s → A s) :
    O.Triple t P p Q E :=
  h.conseq hP (fun _ _ _ h => h) fun _ _ _ h => h

/-- Weaken the postconditions only. -/
theorem Triple.post {p : Prog S α} (h : O.Triple t P p B D)
    (hQ : ∀ a s, O.Inv s → B a s → Q a s) (hE : ∀ e s, O.Inv s → D e s → E e s) :
    O.Triple t P p Q E :=
  h.conseq (fun _ _ h => h) hQ hE

theorem Triple.ret {a : α} (hst : O.Stable t P) (h : ∀ s, O.Inv s → P s → Q a s) :
    O.Triple t P (.ret a) Q E :=
  fun _ _ hP s' hr hi => h s' hi (hst.rely hP hr)

theorem Triple.raise {e : S.Err} (hst : O.Stable t P) (h : ∀ s, O.Inv s → P s → E e s) :
    O.Triple t P (.raise e : Prog S α) Q E :=
  fun _ _ hP s' hr hi => h s' hi (hst.rely hP hr)

theorem Triple.act {a : S.Act} {k : S.Res a → Prog S α} {V : S.Res a → σ → Prop}
    (hst : O.Stable t P) (hpre : ∀ s, O.Inv s → P s → O.Pre t a s)
    (hstep : ∀ r s s', O.Inv s → P s → M.step t a r s s' → O.Inv s' → V r s')
    (hk : ∀ r, O.Triple t (V r) (k r) Q E) : O.Triple t P (.act a k) Q E := by
  intro s _ hP s' hr hi'
  have hP' := hst.rely hP hr
  exact ⟨hpre s' hi' hP', fun r s'' hs hi'' => hk r s'' hi'' (hstep r s' s'' hi' hP' hs hi'')⟩

theorem Triple.perform {a : S.Act} {Q : S.Res a → σ → Prop} (hst : O.Stable t P)
    (hpre : ∀ s, O.Inv s → P s → O.Pre t a s)
    (hstep : ∀ r s s', O.Inv s → P s → M.step t a r s s' → O.Inv s' → Q r s')
    (hpost : ∀ r, O.Stable t (Q r)) : O.Triple t P (Prog.perform a) Q E :=
  .act hst hpre hstep fun r => .ret (hpost r) fun _ _ h => h

theorem Triple.bind {p : Prog S α} {f : α → Prog S β} (hp : O.Triple t P p Q E)
    (hf : ∀ a, O.Triple t (Q a) (f a) R E) : O.Triple t P (p.bind f) R E :=
  fun s hi hP => wp_bind hi (hp s hi hP) fun a s' hi' hQ => hf a s' hi' hQ

theorem Triple.handle {p : Prog S α} {h : S.Err → Prog S α} (hp : O.Triple t P p Q E)
    (hh : ∀ e, O.Triple t (E e) (h e) Q D) : O.Triple t P (p.handle h) Q D :=
  fun s hi hP => wp_handle hi (hp s hi hP) fun e s' hi' hE => hh e s' hi' hE

/-- A pure fact of the precondition can be assumed outside. -/
theorem Triple.pure {φ : Prop} {p : Prog S α} (h : φ → O.Triple t P p Q E) :
    O.Triple t (fun s => φ ∧ P s) p Q E :=
  fun s hi hP => h hP.1 s hi hP.2

theorem Triple.exists {ι : Type} {P : ι → σ → Prop} {p : Prog S α}
    (h : ∀ i, O.Triple t (P i) p Q E) : O.Triple t (fun s => ∃ i, P i s) p Q E :=
  fun s hi hP => let ⟨i, hP⟩ := hP; h i s hi hP

theorem Triple.false {p : Prog S α} : O.Triple t (fun _ => False) p Q E :=
  fun _ _ h => h.elim

/-- The loop rule: `I` holds between the iterations. -/
theorem Triple.forEach {I : List α → σ → Prop} {f : α → Prog S Unit}
    (hst : O.Stable t (I []))
    (hf : ∀ x xs, O.Triple t (I (x :: xs)) (f x) (fun _ => I xs) E) :
    ∀ xs, O.Triple t (I xs) (Prog.forEach f xs) (fun _ => I []) E
  | [] => .ret hst fun _ _ h => h
  | x :: xs => .bind (hf x xs) fun _ => Triple.forEach hst hf xs

/-- The search rule: `I` holds while nothing was found. -/
theorem Triple.firstSome {I : List α → σ → Prop} {f : α → Prog S (Option β)}
    {Q : Option β → σ → Prop} (hst : O.Stable t (I []))
    (hsome : ∀ b, O.Stable t (Q (some b))) (hnone : ∀ s, O.Inv s → I [] s → Q none s)
    (hf : ∀ x xs, O.Triple t (I (x :: xs)) (f x)
      (fun o s => match o with | some b => Q (some b) s | none => I xs s) E) :
    ∀ xs, O.Triple t (I xs) (Prog.firstSome f xs) Q E
  | [] => .ret hst hnone
  | x :: xs => .bind (hf x xs) fun o => by
      cases o with
      | none => exact Triple.firstSome hst hsome hnone hf xs
      | some b => exact .ret (hsome b) fun _ _ h => h

/-- A program whose calls are all free of preconditions and all keep `P` keeps `P`. -/
theorem Triple.keep {H : S.Act → Prop} {p : Prog S α} (hst : O.Stable t P) (hall : p.All H)
    (hpre : ∀ a s, H a → O.Inv s → P s → O.Pre t a s)
    (hkeep : ∀ a r s s', H a → O.Inv s → P s → M.step t a r s s' → O.Inv s' → P s') :
    O.Triple t P p (fun _ => P) (fun _ => P) := by
  induction p with
  | ret a => exact .ret hst fun _ _ h => h
  | raise e => exact .raise hst fun _ _ h => h
  | act a k ih =>
    exact .act hst (fun s hi hP => hpre a s hall.1 hi hP)
      (fun r s s' hi hP hs hi' => hkeep a r s s' hall.1 hi hP hs hi') fun r => ih r (hall.2 r)

/-- A program without preconditions about which nothing is asserted. -/
theorem Triple.any {p : Prog S α} (hpre : ∀ a s, O.Inv s → O.Pre t a s) :
    O.Triple t (fun _ => True) p (fun _ _ => True) fun _ _ => True := by
  have htrue : O.Stable t fun _ => True := Stable.const
  induction p with
  | ret a => exact .ret htrue fun _ _ h => h
  | raise e => exact .raise htrue fun _ _ h => h
  | act a k ih =>
    exact .act htrue (fun s hi _ => hpre a s hi) (fun _ _ _ _ _ _ _ => trivial) fun r => ih r

end Rules

/-! ## Soundness -/

variable (O)

/-- What a run of a system whose bodies were verified looks like. -/
structure Verified (L : Tid → σ → Prop) (tr : List (Event S Tid σ)) (c : Config S Tid σ) :
    Prop where
  inv : O.Inv c.st
  todo : ∀ t, O.wp t (c.prog t) (fun _ => L t) (fun _ _ => False) c.st
  events : ∀ e ∈ tr, O.Inv e.pre ∧ O.Pre e.tid e.act e.pre

variable {O}

/-- **Soundness.** If each body re-establishes its own loop assertion `L t`, every run keeps the
invariant and makes every call under its precondition. -/
theorem sound [DecidableEq Tid] {L : Tid → σ → Prop} {s₀ : σ} (hinv : O.Inv s₀) (hL : ∀ t, L t s₀)
    (hbody : ∀ t, O.Triple t (L t) (M.body t) (fun _ => L t) fun _ _ => False)
    {tr : List (Event S Tid σ)} {c : Config S Tid σ} (hrun : M.Run s₀ tr c) :
    O.Verified L tr c := by
  induction hrun with
  | start => exact ⟨hinv, fun t => hbody t s₀ hinv (hL t), fun e he => absurd he (by simp)⟩
  | @call tr c s' a k t r _ hp hs ih =>
    have hw : O.wp t (.act a k) (fun _ => L t) (fun _ _ => False) c.st := hp ▸ ih.todo t
    obtain ⟨hpre, hk⟩ := hw c.st .refl ih.inv
    have hi' := O.pres ih.inv hpre hs
    refine ⟨hi', fun u => ?_, fun e he => ?_⟩
    · by_cases hu : u = t
      · subst hu
        simpa using hk r s' hs hi'
      · have hr : O.Rely u c.st s' :=
          .single ⟨t, fun h => hu h.symm, a, r, ih.inv, hpre, hs⟩
        simpa [Function.update_of_ne hu] using wp_rely (ih.todo u) hr
    · rcases List.mem_append.mp he with he | he
      · exact ih.events e he
      · rw [List.mem_singleton.mp he]; exact ⟨ih.inv, hpre⟩
  | @again tr c t _ hp ih =>
    refine ⟨ih.inv, fun u => ?_, ih.events⟩
    by_cases hu : u = t
    · subst hu
      have hw : O.wp u (.ret ()) (fun _ => L u) (fun _ _ => False) c.st := hp ▸ ih.todo u
      simpa using hbody u c.st ih.inv (hw c.st .refl ih.inv)
    · simpa [Function.update_of_ne hu] using ih.todo u

end Outline

end Conc
