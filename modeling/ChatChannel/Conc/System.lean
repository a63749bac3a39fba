import ChatChannel.Conc.Prog

/-!
# Systems of threads

A system runs one program per thread against a shared state. A step is one atomic call of one
thread, so a run is an arbitrary interleaving of the threads' calls; a thread whose program has
returned starts its body again. A call that the state does not admit (a lock that is taken, a
thread to be joined that still runs) has no step, which is how blocking is modelled.

`Run` records the events of a run with the states before and after each of them, so that a
property of runs may speak about calls, answers and states. A condition on the steps of a run is a
predicate on its events, and `Run.restrict` turns a run that meets it at every step into a run of the
restricted system, where it is a guard.
-/

set_option autoImplicit false

namespace Conc

/-- Programs, one per thread, over one shared state. `step t a r s s'`: thread `t` may perform
`a` in `s`, with answer `r`, and leave `s'`. -/
structure Sys (S : Sig) (Tid σ : Type) where
  body : Tid → Prog S Unit
  step : Tid → (a : S.Act) → S.Res a → σ → σ → Prop

/-- One performed call. -/
structure Event (S : Sig) (Tid σ : Type) where
  tid : Tid
  act : S.Act
  res : S.Res act
  pre : σ
  post : σ

/-- The shared state and what each thread has left to do. -/
structure Config (S : Sig) (Tid σ : Type) where
  st : σ
  prog : Tid → Prog S Unit

namespace Sys

variable {S : Sig} {Tid σ : Type} [DecidableEq Tid] (M : Sys S Tid σ)

/-- Every thread at the start of its body. -/
def start (s : σ) : Config S Tid σ := ⟨s, M.body⟩

/-- The runs from `s₀`, with their events in order. -/
inductive Run (s₀ : σ) : List (Event S Tid σ) → Config S Tid σ → Prop
  | start : Run s₀ [] (M.start s₀)
  | call {tr c s'} {a : S.Act} {k : S.Res a → Prog S Unit} (t : Tid) (r : S.Res a) :
      Run s₀ tr c → c.prog t = .act a k → M.step t a r c.st s' →
      Run s₀ (tr ++ [⟨t, a, r, c.st, s'⟩]) ⟨s', Function.update c.prog t (k r)⟩
  | again {tr c} (t : Tid) : Run s₀ tr c → c.prog t = .ret () →
      Run s₀ tr ⟨c.st, Function.update c.prog t (M.body t)⟩

/-- The system whose steps all meet `C`. -/
def restrict (C : Event S Tid σ → Prop) : Sys S Tid σ where
  body := M.body
  step t a r s s' := M.step t a r s s' ∧ C ⟨t, a, r, s, s'⟩

variable {M} {s₀ : σ}

theorem Run.restrict {C : Event S Tid σ → Prop} {tr : List (Event S Tid σ)}
    {c : Config S Tid σ} (h : M.Run s₀ tr c) (hC : ∀ e ∈ tr, C e) :
    (M.restrict C).Run s₀ tr c := by
  induction h with
  | start => exact .start
  | call t r _ hp hs ih =>
    have hpre := ih fun e he => hC e (List.mem_append_left _ he)
    exact .call t r hpre hp ⟨hs, hC _ (by simp)⟩
  | again t _ hp ih => exact .again t (ih hC) hp

/-- An event is a step of the system. -/
theorem Run.step_of_mem {tr : List (Event S Tid σ)} {c : Config S Tid σ} (h : M.Run s₀ tr c) :
    ∀ e ∈ tr, M.step e.tid e.act e.res e.pre e.post := by
  induction h with
  | start => intro e he; exact absurd he (by simp)
  | call t r _ _ hs ih =>
    intro e he
    rcases List.mem_append.mp he with he | he
    · exact ih e he
    · rw [List.mem_singleton.mp he]; exact hs
  | again t _ _ ih => exact ih

/-- A property that every event of a run keeps holds before each of them, and at the end. -/
theorem Run.invariant {I : σ → Prop} {tr : List (Event S Tid σ)} {c : Config S Tid σ}
    (h : M.Run s₀ tr c) (h₀ : I s₀) (hstep : ∀ e ∈ tr, I e.pre → I e.post) :
    I c.st ∧ ∀ e ∈ tr, I e.pre := by
  induction h with
  | start => exact ⟨h₀, fun e he => absurd he (by simp)⟩
  | @call tr c s' a k t r _ _ _ ih =>
    obtain ⟨hc, hpre⟩ := ih fun e he => hstep e (List.mem_append_left _ he)
    refine ⟨hstep ⟨t, a, r, c.st, s'⟩ (by simp) hc, fun e he => ?_⟩
    rcases List.mem_append.mp he with he | he
    · exact hpre e he
    · rw [List.mem_singleton.mp he]; exact hc
  | again t _ _ ih => exact ih hstep

end Sys

end Conc
