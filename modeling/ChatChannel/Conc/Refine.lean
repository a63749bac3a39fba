import Mathlib.Logic.Relation
import ChatChannel.Conc.System

/-!
# Atomic calls made of finer steps

The threads of a system make atomic calls. In a finer system `N` the code of each call stands in its place
(`Prog.expand`), and the threads interleave between the finer steps. A `Refinement` says how the two states belong
together (`Link`) and what a thread promises the others about its steps (`Guar`). The obligation for one call is
`pending`: its code makes exactly one step at which the call of `M` happens, on a state that fits, and
returns the answer that was given there.

`Refinement.run` is the payoff: every run of `N` is matched by a run of `M`, in which each thread is at the
same place of its program with the same answers. What holds of all runs of the system with atomic calls holds
of the finer one.
-/

set_option autoImplicit false

namespace Conc

variable {S L : Sig} {Tid σ τ α β : Type}

namespace Prog

/-- The program with the code of each call in the place of the call. -/
def expand (err : S.Err → L.Err) (impl : (a : S.Act) → Prog L (S.Res a)) : Prog S α → Prog L α
  | ret a => ret a
  | raise e => raise (err e)
  | act a k => (impl a).bind fun r => (k r).expand err impl

end Prog

/-- The calls of `M` implemented over the calls of `N`. -/
structure Refinement (M : Sys S Tid σ) (N : Sys L Tid τ) where
  err : S.Err → L.Err
  impl : Tid → (a : S.Act) → Prog L (S.Res a)
  /-- The finer state fits the state of `M`. -/
  Link : τ → σ → Prop
  /-- What a thread may do to the two states. -/
  Guar : Tid → τ × σ → τ × σ → Prop

namespace Refinement

variable {M : Sys S Tid σ} {N : Sys L Tid τ} (R : Refinement M N)

/-- What the threads other than `t` may do. -/
def Rely (t : Tid) : τ × σ → τ × σ → Prop :=
  Relation.ReflTransGen fun p q => ∃ u, u ≠ t ∧ R.Guar u p q

/-- A step of thread `t` leads to states that fit, and keeps the promise. -/
structure Moves (t : Tid) (p q : τ × σ) : Prop where
  link : R.Link q.1 q.2
  guar : R.Guar t p q

/-- The call has happened with answer `q`; what is left of its code changes nothing and returns `q`. -/
def settled (t : Tid) (q : β) : Prog L β → τ × σ → Prop
  | .ret b, _ => b = q
  | .raise _, _ => False
  | .act b k, p => ∀ p', R.Rely t p p' → R.Link p'.1 p'.2 → ∀ r y, N.step t b r p'.1 y →
      R.Moves t p' (y, p'.2) ∧ settled t q (k r) (y, p'.2)

/-- The call `a` has not happened. Each step of its code changes nothing, or is the one where the call happens. -/
def pending (t : Tid) (a : S.Act) : Prog L (S.Res a) → τ × σ → Prop
  | .ret _, _ => False
  | .raise _, _ => False
  | .act b k, p => ∀ p', R.Rely t p p' → R.Link p'.1 p'.2 → ∀ r y, N.step t b r p'.1 y →
      (R.Moves t p' (y, p'.2) ∧ pending t a (k r) (y, p'.2)) ∨
        ∃ q s, M.step t a q p'.2 s ∧ R.Moves t p' (y, s) ∧ R.settled t q (k r) (y, s)

/-- The code of a program of `M`. -/
abbrev code (t : Tid) (p : Prog S α) : Prog L α := p.expand R.err (R.impl t)

/-- Where a thread of `N` is when its program in `M` is at the second place: between two calls, in the code of one
that has not happened, or of one that has. -/
inductive Stands (t : Tid) (p : τ × σ) : Prog L Unit → Prog S Unit → Prop
  | between (q : Prog S Unit) : Stands t p (R.code t q) q
  | before {a : S.Act} {k : S.Res a → Prog S Unit} {c : Prog L (S.Res a)} :
      R.pending t a c p → Stands t p (c.bind fun r => R.code t (k r)) (.act a k)
  | after {a : S.Act} {q : S.Res a} {k : S.Res a → Prog S Unit} {c : Prog L (S.Res a)} :
      R.settled t q c p → Stands t p (c.bind fun r => R.code t (k r)) (k q)

variable {R} {t : Tid} {p p' : τ × σ}

theorem settled_rely {q : β} {c : Prog L β} (h : R.settled t q c p) (hr : R.Rely t p p') :
    R.settled t q c p' := by
  cases c with
  | ret b => exact h
  | raise e => exact h
  | act b k => exact fun x hx => h x (hr.trans hx)

theorem pending_rely {a : S.Act} {c : Prog L (S.Res a)} (h : R.pending t a c p) (hr : R.Rely t p p') :
    R.pending t a c p' := by
  cases c with
  | ret b => exact h
  | raise e => exact h
  | act b k => exact fun x hx => h x (hr.trans hx)

theorem Stands.rely {c : Prog L Unit} {q : Prog S Unit} (h : R.Stands t p c q) (hr : R.Rely t p p') :
    R.Stands t p' c q := by
  cases h with
  | between q => exact .between q
  | before h => exact .before (pending_rely h hr)
  | after h => exact .after (settled_rely h hr)

/-! ## One step -/

section

variable (hstart : ∀ t a p, R.Link p.1 p.2 → R.pending t a (R.impl t a) p)
include hstart

/-- A thread about to make a call of `N` is in the code of a call of `M`. -/
theorem Stands.inside {b : L.Act} {f : L.Res b → Prog L Unit} {q : Prog S Unit} (hl : R.Link p.1 p.2)
    (h : R.Stands t p (.act b f) q) :
    (∃ (a : S.Act) (k : S.Res a → Prog S Unit) (g : L.Res b → Prog L (S.Res a)), q = .act a k ∧
        (f = fun r => (g r).bind fun r => R.code t (k r)) ∧ R.pending t a (.act b g) p) ∨
      ∃ (a : S.Act) (x : S.Res a) (k : S.Res a → Prog S Unit) (g : L.Res b → Prog L (S.Res a)), q = k x ∧
        (f = fun r => (g r).bind fun r => R.code t (k r)) ∧ R.settled t x (.act b g) p := by
  -- the code of a program that has a step begins with the code of its first call
  have hfirst {q : Prog S Unit} (hq : R.code t q = .act b f) : ∃ (a : S.Act) (k : S.Res a → Prog S Unit)
      (g : L.Res b → Prog L (S.Res a)), q = .act a k ∧
        (f = fun r => (g r).bind fun r => R.code t (k r)) ∧ R.pending t a (.act b g) p := by
    cases q with
    | ret u => cases hq
    | raise e => cases hq
    | act a k =>
      have hpending := hstart t a p hl
      change (R.impl t a).bind (fun r => R.code t (k r)) = .act b f at hq
      cases hc : R.impl t a with
      | ret x => exact (hc ▸ hpending : R.pending t a (.ret x) p).elim
      | raise e => exact (hc ▸ hpending : R.pending t a (.raise e) p).elim
      | act b' g =>
        rw [hc] at hq hpending
        cases hq
        exact ⟨a, k, g, rfl, rfl, hpending⟩
  generalize hc : Prog.act b f = c at h
  cases h with
  | between q => exact .inl (hfirst hc.symm)
  | @before a k c h =>
    cases c with
    | ret x => exact h.elim
    | raise e => exact h.elim
    | act b' g =>
      cases hc
      exact .inl ⟨a, k, g, rfl, rfl, h⟩
  | @after a x k c h =>
    cases c with
    | ret y =>
      obtain rfl : y = x := h
      exact .inl (hfirst hc.symm)
    | raise e => exact h.elim
    | act b' g =>
      cases hc
      exact .inr ⟨a, x, k, g, rfl, rfl, h⟩

omit hstart in
/-- At the end of its body a thread is at the end of its body in `M`. -/
theorem Stands.ended (hstart : ∀ t a p, R.Link p.1 p.2 → R.pending t a (R.impl t a) p) {q : Prog S Unit}
    (hl : R.Link p.1 p.2) (h : R.Stands t p (.ret ()) q) : q = .ret () := by
  have hfirst {q : Prog S Unit} (hq : R.code t q = .ret ()) : q = .ret () := by
    cases q with
    | ret u => rfl
    | raise e => cases hq
    | act a k =>
      have hpending := hstart t a p hl
      change (R.impl t a).bind (fun r => R.code t (k r)) = .ret () at hq
      cases hc : R.impl t a with
      | ret x => exact (hc ▸ hpending : R.pending t a (.ret x) p).elim
      | raise e => exact (hc ▸ hpending : R.pending t a (.raise e) p).elim
      | act b g =>
        rw [hc] at hq
        cases hq
  generalize hc : (Prog.ret () : Prog L Unit) = c at h
  cases h with
  | between q => exact hfirst hc.symm
  | @before a k c h =>
    cases c with
    | ret x => exact h.elim
    | raise e => exact h.elim
    | act b g => cases hc
  | @after a x k c h =>
    cases c with
    | ret y =>
      obtain rfl : y = x := h
      exact hfirst hc.symm
    | raise e => exact h.elim
    | act b g => cases hc

end

/-! ## Runs -/

/-- **Refinement.** If the code of every call does its work in one step, each run of the finer system is matched by
a run of the system with atomic calls. -/
theorem run [DecidableEq Tid] {s₀ : σ} {x₀ : τ}
    (hstart : ∀ t a p, R.Link p.1 p.2 → R.pending t a (R.impl t a) p)
    (hbody : ∀ t, N.body t = R.code t (M.body t)) (hinit : R.Link x₀ s₀) {tr : List (Event L Tid τ)}
    {c : Config L Tid τ} (h : N.Run x₀ tr c) :
    ∃ tr' d, M.Run s₀ tr' d ∧ R.Link c.st d.st ∧ ∀ t, R.Stands t (c.st, d.st) (c.prog t) (d.prog t) := by
  induction h with
  | start =>
    refine ⟨[], M.start s₀, .start, hinit, fun t => ?_⟩
    show R.Stands t (x₀, s₀) (N.body t) (M.body t)
    rw [hbody t]
    exact .between (M.body t)
  | @call tr c y b f t r _ hp hs ih =>
    obtain ⟨tr', d, hrun, hlink, hstands⟩ := ih
    have hothers {q : τ × σ} (hguar : R.Guar t (c.st, d.st) q) (u : Tid) (hu : u ≠ t) :
        R.Stands u q (c.prog u) (d.prog u) :=
      (hstands u).rely (.single ⟨t, hu.symm, hguar⟩)
    have hmine : R.Stands t (c.st, d.st) (.act b f) (d.prog t) := hp ▸ hstands t
    rcases hmine.inside hstart hlink with ⟨a, k, g, hq, rfl, h⟩ | ⟨a, x, k, g, hq, rfl, h⟩
    · rcases h _ .refl hlink r y hs with ⟨hm, hk⟩ | ⟨x, s, hstep, hm, hk⟩
      · -- the call does not happen yet
        refine ⟨tr', d, hrun, hm.link, fun u => ?_⟩
        show R.Stands u (y, d.st) (Function.update c.prog t _ u) (d.prog u)
        by_cases hu : u = t
        · subst hu
          rw [Function.update_self, hq]
          exact .before hk
        · rw [Function.update_of_ne hu]
          exact hothers hm.guar u hu
      · -- it happens
        refine ⟨_, _, .call t x hrun hq hstep, hm.link, fun u => ?_⟩
        show R.Stands u (y, s) (Function.update c.prog t _ u) (Function.update d.prog t (k x) u)
        by_cases hu : u = t
        · subst hu
          rw [Function.update_self, Function.update_self]
          exact .after hk
        · rw [Function.update_of_ne hu, Function.update_of_ne hu]
          exact hothers hm.guar u hu
    · obtain ⟨hm, hk⟩ := h _ .refl hlink r y hs
      refine ⟨tr', d, hrun, hm.link, fun u => ?_⟩
      show R.Stands u (y, d.st) (Function.update c.prog t _ u) (d.prog u)
      by_cases hu : u = t
      · subst hu
        rw [Function.update_self, hq]
        exact .after hk
      · rw [Function.update_of_ne hu]
        exact hothers hm.guar u hu
  | @again tr c t _ hp ih =>
    obtain ⟨tr', d, hrun, hlink, hstands⟩ := ih
    have hmine : R.Stands t (c.st, d.st) (.ret ()) (d.prog t) := hp ▸ hstands t
    refine ⟨tr', _, .again t hrun (hmine.ended hstart hlink), hlink, fun u => ?_⟩
    show R.Stands u (c.st, d.st) (Function.update c.prog t (N.body t) u)
      (Function.update d.prog t (M.body t) u)
    by_cases hu : u = t
    · subst hu
      rw [Function.update_self, Function.update_self, hbody]
      exact .between _
    · rw [Function.update_of_ne hu, Function.update_of_ne hu]
      exact hstands u

end Refinement

end Conc
