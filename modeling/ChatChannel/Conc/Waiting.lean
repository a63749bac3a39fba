import Mathlib.Logic.Relation
import Mathlib.Order.WellFounded
import ChatChannel.Conc.Logic

/-!
# Waiting

A thread whose next call cannot be answered in the present state waits. Nothing is stuck for ever if every
wait is for a thread that is there, and no chain of waits comes back to where it began: then each chain
ends with a thread that can go on (`waits_end`). What a thread waits for is up to the system.

`next_pre` is the step from an outline to the calls that were not made yet: the precondition of a call
holds already while the thread waits to make it.
-/

set_option autoImplicit false

namespace Conc

variable {S : Sig} {Tid σ : Type} {M : Sys S Tid σ} {c : Config S Tid σ}

namespace Sys

/-- Thread `t` can make its next call, or is at the end of its body. -/
def Goes (M : Sys S Tid σ) (c : Config S Tid σ) (t : Tid) : Prop :=
  c.prog t = .ret () ∨
    ∃ (a : S.Act) (k : S.Res a → Prog S Unit) (r : S.Res a) (s : σ),
      c.prog t = .act a k ∧ M.step t a r c.st s

variable {A can : Tid → Prop} {waits : Tid → Tid → Prop}

omit M c in
/-- If the threads of `A` wait for one another only, and not in a circle, every one of them can go on or waits
for one that can, directly or not. -/
theorem waits_end (hwf : WellFounded fun u t => waits t u)
    (hwaits : ∀ t, A t → ¬ can t → ∃ u, A u ∧ waits t u) (t : Tid) (ht : A t) :
    ∃ u, A u ∧ can u ∧ Relation.ReflTransGen waits t u := by
  induction t using hwf.induction with
  | _ t ih =>
    by_cases hcan : can t
    · exact ⟨t, ht, hcan, .refl⟩
    · obtain ⟨u, hu, htu⟩ := hwaits t ht hcan
      obtain ⟨v, hv, hcan, huv⟩ := ih u htu hu
      exact ⟨v, hv, hcan, .head htu huv⟩

end Sys

namespace Outline

variable {O : Outline M} {L : Tid → σ → Prop} {tr : List (Event S Tid σ)} {t : Tid} {a : S.Act}
  {k : S.Res a → Prog S Unit}

/-- The next call of a thread is made under its precondition if it is made now. -/
theorem Verified.next_pre (h : O.Verified L tr c) (hp : c.prog t = .act a k) : O.Pre t a c.st := by
  have hw := h.todo t
  rw [hp] at hw
  exact (hw c.st .refl h.inv).1

/-- No thread ends with an exception. -/
theorem Verified.no_raise (h : O.Verified L tr c) (e : S.Err) : c.prog t ≠ .raise e := by
  intro hp
  have hw := h.todo t
  rw [hp] at hw
  exact hw c.st .refl h.inv

end Outline

end Conc
