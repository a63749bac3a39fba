import ChatChannel.Conc.Logic
import ChatChannel.Conc.Thread

/-!
# Histories beside the state

The judgment of `Logic.lean` speaks about states and a contract about histories. `recalling M` is `M` with
the calls of every thread written down beside the state, where nothing reads them: every run of `M` is one
of it (`Run.recall`). Outlines of `recalling M` therefore have assertions about both, and what they
guarantee holds on the runs of `M` (`Outline.recalled`).
-/

set_option autoImplicit false

namespace Conc

variable {S : Sig} {Tid σ : Type} [DecidableEq Tid]

namespace Sys

/-- The system with every thread's own history in its state. -/
def recalling (M : Sys S Tid σ) : Sys S Tid (σ × (Tid → Hist S)) where
  body := M.body
  step t a r x y := M.step t a r x.1 y.1 ∧ y.2 = Function.update x.2 t (x.2 t ++ [⟨a, r⟩])

variable {M : Sys S Tid σ} {s₀ : σ}

theorem own_update (tr : List (Event S Tid σ)) (e : Event S Tid σ) :
    (fun t => own t (tr ++ [e])) =
      Function.update (fun t => own t tr) e.tid (own e.tid tr ++ [⟨e.act, e.res⟩]) := by
  funext t
  by_cases ht : t = e.tid
  · subst ht
    rw [Function.update_self, own_snoc_self]
  · rw [Function.update_of_ne ht, own_snoc_ne tr fun h => ht h.symm]

/-- Every run has one that keeps the histories, with the same calls. -/
theorem Run.recall {tr : List (Event S Tid σ)} {c : Config S Tid σ} (h : M.Run s₀ tr c) :
    ∃ tr', M.recalling.Run (s₀, fun _ => []) tr' ⟨(c.st, fun t => own t tr), c.prog⟩ ∧
      ∀ x e y, tr = x ++ e :: y →
        ∃ d ∈ tr', d.tid = e.tid ∧ d.act = e.act ∧ d.pre = (e.pre, fun t => own t x) := by
  induction h with
  | start => exact ⟨[], .start, fun x e y hs => absurd hs (by simp)⟩
  | @call tr c s' a k t r _ hp hs ih =>
    obtain ⟨tr', hrun, hevents⟩ := ih
    have hstep : M.recalling.step t a r (c.st, fun t => own t tr)
        (s', fun u => own u (tr ++ [⟨t, a, r, c.st, s'⟩])) := ⟨hs, own_update tr ⟨t, a, r, c.st, s'⟩⟩
    refine ⟨_, .call t r hrun hp hstep, fun x e y hsplit => ?_⟩
    rcases split_snoc hsplit with ⟨-, rfl, rfl⟩ | ⟨z, -, hz⟩
    · exact ⟨_, List.mem_append_right _ List.mem_cons_self, rfl, rfl, rfl⟩
    · obtain ⟨d, hd, hsame⟩ := hevents x e z hz
      exact ⟨d, List.mem_append_left _ hd, hsame⟩
  | again t _ hp ih =>
    obtain ⟨tr', hrun, hevents⟩ := ih
    exact ⟨tr', .again t hrun hp, hevents⟩

end Sys

namespace Outline

variable {M : Sys S Tid σ} {s₀ : σ} {O : Outline M.recalling}
  {L : Tid → σ × (Tid → Hist S) → Prop}

/-- What an outline with histories guarantees on the runs of the system: each call is made under its
precondition, and a thread that is at the end of its body is where its loop assertion holds. -/
theorem recalled (hinv : O.Inv (s₀, fun _ => [])) (hL : ∀ t, L t (s₀, fun _ => []))
    (hbody : ∀ t, O.Triple t (L t) (M.body t) (fun _ => L t) fun _ _ => False)
    {tr : List (Event S Tid σ)} {c : Config S Tid σ} (h : M.Run s₀ tr c) :
    (∀ t, c.prog t = .ret () → L t (c.st, fun u => Sys.own u tr)) ∧
      ∀ x e y, tr = x ++ e :: y → O.Pre e.tid e.act (e.pre, fun u => Sys.own u x) := by
  obtain ⟨tr', hrun, hevents⟩ := h.recall
  have hverified := O.sound hinv hL hbody hrun
  refine ⟨fun t ht => ?_, fun x e y hs => ?_⟩
  · have htodo := hverified.todo t
    simp only [ht] at htodo
    exact htodo _ .refl hverified.inv
  · obtain ⟨d, hd, htid, hact, hpre⟩ := hevents x e y hs
    have hp := (hverified.events d hd).2
    rwa [htid, hact, hpre] at hp

end Outline

end Conc
