import ChatChannel.Conc.System

/-!
# Executable schedules

A system whose steps are a computable partial function can be run. `play` lets one thread make
calls, with answers taken from an input, until its body returns or a number of calls is made;
`plays` does so for a list of turns. What they compute is a run of the system, its events
included (`plays_run`), so a concrete run is exhibited by evaluation.
-/

set_option autoImplicit false

namespace Conc

variable {S : Sig} {Tid σ ι : Type} [DecidableEq Tid]

/-- A turn: the thread, how many calls it makes at most, and the input it draws answers from. -/
structure Turn (Tid ι : Type) where
  tid : Tid
  calls : Nat
  input : ι

/-- The events of a run so far and the configuration it is in. -/
abbrev Played (S : Sig) (Tid σ : Type) := List (Event S Tid σ) × Config S Tid σ

section

variable (body : Tid → Prog S Unit) (exec : Tid → (a : S.Act) → S.Res a → σ → Option σ)
  (choose : Tid → (a : S.Act) → σ → ι → Option (S.Res a × ι))

/-- Up to `n` calls of thread `t`; a body that returns ends the turn. -/
def play (t : Tid) : Nat → ι → Played S Tid σ → Option (Played S Tid σ)
  | 0, _, x => some x
  | n + 1, i, (tr, c) =>
    match c.prog t with
    | .ret _ => some (tr, ⟨c.st, Function.update c.prog t (body t)⟩)
    | .raise _ => none
    | .act a k =>
      match choose t a c.st i with
      | none => none
      | some (r, i') =>
        match exec t a r c.st with
        | none => none
        | some s' =>
          play t n i' (tr ++ [⟨t, a, r, c.st, s'⟩], ⟨s', Function.update c.prog t (k r)⟩)

def plays : List (Turn Tid ι) → Played S Tid σ → Option (Played S Tid σ)
  | [], x => some x
  | u :: us, x => (play body exec choose u.tid u.calls u.input x).bind (plays us)

end

variable {M : Sys S Tid σ} {exec : Tid → (a : S.Act) → S.Res a → σ → Option σ}
  {choose : Tid → (a : S.Act) → σ → ι → Option (S.Res a × ι)} {s₀ : σ}

theorem play_run (hexec : ∀ t a r s s', exec t a r s = some s' → M.step t a r s s') {t : Tid} :
    ∀ {n : Nat} {i : ι} {x y : Played S Tid σ}, M.Run s₀ x.1 x.2 →
      play M.body exec choose t n i x = some y → M.Run s₀ y.1 y.2
  | 0, _, _, _, hr, h => by cases h; exact hr
  | n + 1, i, (tr, c), y, hr, h => by
    rw [play] at h
    cases hp : c.prog t with
    | ret u =>
      rw [hp] at h
      cases h
      exact .again t hr hp
    | raise e => rw [hp] at h; cases h
    | act a k =>
      rw [hp] at h
      dsimp only at h
      split at h
      · cases h
      · rename_i r i' _
        split at h
        · cases h
        · rename_i s' hs
          have hr' : M.Run s₀ (tr ++ [⟨t, a, r, c.st, s'⟩]) ⟨s', Function.update c.prog t (k r)⟩ :=
            .call t r hr hp (hexec _ _ _ _ _ hs)
          exact play_run hexec hr' h

theorem plays_run (hexec : ∀ t a r s s', exec t a r s = some s' → M.step t a r s s') :
    ∀ {us : List (Turn Tid ι)} {x y : Played S Tid σ}, M.Run s₀ x.1 x.2 →
      plays M.body exec choose us x = some y → M.Run s₀ y.1 y.2
  | [], _, _, hr, h => by cases h; exact hr
  | u :: us, x, y, hr, h => by
    obtain ⟨x₁, h₁, h₂⟩ := Option.bind_eq_some_iff.mp h
    exact plays_run hexec (play_run hexec hr h₁) h₂

end Conc
