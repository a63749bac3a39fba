import ChatChannel.Conc.Logic

/-!
# Values beside the state

A proof about runs may need to count what the state does not: who was called and has not answered yet. `ghosting M g`
is `M` with a value beside its state that `g` updates at every call and nothing reads; every run of `M` is one of
it (`Run.ghost`). An outline of `ghosting M g` therefore speaks about the runs of `M` (`Outline.ghosted`).
-/

set_option autoImplicit false

namespace Conc

variable {S : Sig} {Tid σ γ : Type} [DecidableEq Tid]

namespace Sys

/-- The system with a value that every call updates. -/
def ghosting (M : Sys S Tid σ) (g : Event S Tid σ → γ → γ) : Sys S Tid (σ × γ) where
  body := M.body
  step t a r x y := M.step t a r x.1 y.1 ∧ y.2 = g ⟨t, a, r, x.1, y.1⟩ x.2

variable {M : Sys S Tid σ} {g : Event S Tid σ → γ → γ} {s₀ : σ}

theorem Run.ghost (v₀ : γ) {tr : List (Event S Tid σ)} {c : Config S Tid σ} (h : M.Run s₀ tr c) :
    ∃ tr' v, (M.ghosting g).Run (s₀, v₀) tr' ⟨(c.st, v), c.prog⟩ := by
  induction h with
  | start => exact ⟨[], v₀, .start⟩
  | @call tr c s' a k t r _ hp hs ih =>
    obtain ⟨tr', v, hrun⟩ := ih
    have hstep : (M.ghosting g).step t a r (c.st, v) (s', g ⟨t, a, r, c.st, s'⟩ v) := ⟨hs, rfl⟩
    exact ⟨_, _, .call t r hrun hp hstep⟩
  | again t _ hp ih =>
    obtain ⟨tr', v, hrun⟩ := ih
    exact ⟨tr', v, .again t hrun hp⟩

end Sys

namespace Outline

variable {M : Sys S Tid σ} {g : Event S Tid σ → γ → γ} {s₀ : σ} {v₀ : γ} {O : Outline (M.ghosting g)}
  {L : Tid → σ × γ → Prop}

/-- What an outline with a ghost value guarantees on the runs of the system. -/
theorem ghosted (hinv : O.Inv (s₀, v₀)) (hL : ∀ t, L t (s₀, v₀))
    (hbody : ∀ t, O.Triple t (L t) (M.body t) (fun _ => L t) fun _ _ => False)
    {tr : List (Event S Tid σ)} {c : Config S Tid σ} (h : M.Run s₀ tr c) :
    ∃ tr' v, O.Verified L tr' ⟨(c.st, v), c.prog⟩ := by
  obtain ⟨tr', v, hrun⟩ := h.ghost (g := g) v₀
  exact ⟨tr', v, O.sound hinv hL hbody hrun⟩

end Outline

end Conc
