import ChatChannel.Conc.System

/-!
# Where the arguments of calls come from

A thread's local variables are not part of the shared state, so an invariant says nothing about a
call's arguments by itself. `Under A H Q p` says that they are right: as long as every answer
satisfies `A`, every call of `p` satisfies `H`, and what it returns satisfies `Q`. Whether the
answers satisfy `A` is up to the state, and may depend in turn on the calls made before:
`Run.flow` closes the circle with an invariant.
-/

set_option autoImplicit false

namespace Conc

variable {S : Sig} {α β : Type}

namespace Prog

/-- Under answers in `A`, the calls are in `H` and the value is in `Q`. -/
def Under (A : (a : S.Act) → S.Res a → Prop) (H : S.Act → Prop) (Q : α → Prop) :
    Prog S α → Prop
  | ret a => Q a
  | raise _ => True
  | act a k => H a ∧ ∀ r, A a r → Under A H Q (k r)

namespace Under

variable {A : (a : S.Act) → S.Res a → Prop} {H : S.Act → Prop} {Q B : α → Prop} {R : β → Prop}

theorem mono {p : Prog S α} (h : Under A H Q p) (hQ : ∀ a, Q a → B a) : Under A H B p := by
  induction p with
  | ret a => exact hQ a h
  | raise e => trivial
  | act a k ih => exact ⟨h.1, fun r hr => ih r (h.2 r hr)⟩

/-- Fewer answers, and more calls. -/
theorem imp {A' : (a : S.Act) → S.Res a → Prop} {H' : S.Act → Prop} {p : Prog S α}
    (h : Under A H Q p) (hA : ∀ a r, A' a r → A a r) (hH : ∀ a, H a → H' a) : Under A' H' Q p := by
  induction p with
  | ret a => exact h
  | raise e => trivial
  | act a k ih => exact ⟨hH a h.1, fun r hr => ih r (h.2 r (hA a r hr))⟩

theorem of_all {p : Prog S α} (h : p.All H) : Under A H (fun _ => True) p := by
  induction p with
  | ret a => trivial
  | raise e => trivial
  | act a k ih => exact ⟨h.1, fun r _ => ih r (h.2 r)⟩

theorem perform {a : S.Act} (h : H a) : Under A H (A a) (Prog.perform (S := S) a) :=
  ⟨h, fun _ hr => hr⟩

theorem bind {p : Prog S α} {f : α → Prog S β} (hp : Under A H Q p)
    (hf : ∀ a, Q a → Under A H R (f a)) : Under A H R (p.bind f) := by
  induction p with
  | ret a => exact hf a hp
  | raise e => trivial
  | act a k ih => exact ⟨hp.1, fun r hr => ih r (hp.2 r hr)⟩

theorem handle {p : Prog S α} {h : S.Err → Prog S α} (hp : Under A H Q p)
    (hh : ∀ e, Under A H Q (h e)) : Under A H Q (p.handle h) := by
  induction p with
  | ret a => exact hp
  | raise e => exact hh e
  | act a k ih => exact ⟨hp.1, fun r hr => ih r (hp.2 r hr)⟩

theorem forEach {f : α → Prog S Unit} :
    ∀ {xs : List α}, (∀ x ∈ xs, Under A H (fun _ => True) (f x)) →
      Under A H (fun _ => True) (Prog.forEach f xs)
  | [], _ => trivial
  | _ :: _, hf => bind (hf _ List.mem_cons_self) fun _ _ =>
      forEach fun y hy => hf y (List.mem_cons_of_mem _ hy)

end Under

end Prog

namespace Sys

variable {Tid σ : Type} [DecidableEq Tid] {M : Sys S Tid σ} {s₀ : σ}

/-- If the invariant makes the answers right, and right calls keep the invariant, every call of the
run is right. `L` is what is known of the events anyway. -/
theorem Run.flow {A : (a : S.Act) → S.Res a → Prop} {H : S.Act → Prop} {I : σ → Prop}
    {L : Event S Tid σ → Prop} (hbody : ∀ t, (M.body t).Under A H fun _ => True) (h₀ : I s₀)
    (hstep : ∀ e, L e → H e.act → I e.pre → A e.act e.res ∧ I e.post)
    {tr : List (Event S Tid σ)} {c : Config S Tid σ} (h : M.Run s₀ tr c) (hL : ∀ e ∈ tr, L e) :
    I c.st ∧ ∀ e ∈ tr, I e.pre ∧ H e.act := by
  suffices hall : (∀ t, (c.prog t).Under A H fun _ => True) ∧ I c.st ∧
      ∀ e ∈ tr, I e.pre ∧ H e.act from hall.2
  induction h with
  | start => exact ⟨hbody, h₀, fun e he => absurd he (by simp)⟩
  | @call tr c s' a k t r _ hp _ ih =>
    obtain ⟨hprog, hc, hpre⟩ := ih fun e he => hL e (List.mem_append_left _ he)
    have hact : (Prog.act a k).Under A H fun _ => True := hp ▸ hprog t
    obtain ⟨hans, hpost⟩ := hstep ⟨t, a, r, c.st, s'⟩ (hL _ (by simp)) hact.1 hc
    refine ⟨fun u => ?_, hpost, fun e he => ?_⟩
    · by_cases hu : u = t
      · subst hu
        simpa using hact.2 r hans
      · simpa [Function.update_of_ne hu] using hprog u
    · rcases List.mem_append.mp he with he | he
      · exact hpre e he
      · rw [List.mem_singleton.mp he]; exact ⟨hc, hact.1⟩
  | @again tr c t _ _ ih =>
    obtain ⟨hprog, hc, hpre⟩ := ih hL
    refine ⟨fun u => ?_, hc, hpre⟩
    by_cases hu : u = t
    · subst hu
      simpa using hbody u
    · simpa [Function.update_of_ne hu] using hprog u

end Sys

end Conc
