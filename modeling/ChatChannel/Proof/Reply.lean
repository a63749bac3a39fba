import ChatChannel.Conc.Thread
import ChatChannel.Model.Server

/-!
# Replies to one client

The lobby answers a client it cannot serve with a fixed text. `send_frame` of such a text raises
exactly if one of its `send` calls goes wrong.
-/

set_option autoImplicit false

namespace ChatChannel

open Conc

/-- A `send` that makes the sending of `payload` fail: it sent nothing or, of the header, not all. -/
def Unsent (payload : Bytes) : Call sig → Prop
  | ⟨.send _ b, r⟩ => r = none ∨ r = some 0 ∨ (b = hexHeader payload.length ∧ r ≠ some 4)
  | _ => False

instance (b : Bytes) : DecidablePred (Unsent b) := fun ⟨a, r⟩ => by
  cases a <;> unfold Unsent <;> infer_instance

/-- A text that `send_frame` does not refuse and of which no end reads like its header. -/
structure Sendable (payload : Bytes) : Prop where
  nonempty : payload.length ≠ 0
  bounded : payload.length ≤ maxFrameSize
  rest : ∀ i, payload.drop i ≠ hexHeader payload.length

/-- An end of four bytes is the only one to compare. -/
theorem Sendable.mk' {payload : Bytes} (h0 : payload.length ≠ 0)
    (hm : payload.length ≤ maxFrameSize)
    (hr : payload.drop (payload.length - 4) ≠ hexHeader payload.length) : Sendable payload := by
  refine ⟨h0, hm, fun i h => hr ?_⟩
  have hl := congrArg List.length h
  have h4 : (hexHeader payload.length).length = 4 := rfl
  rw [List.length_drop, h4] at hl
  have hi : i = payload.length - 4 := by omega
  rw [← hi]
  exact h

theorem sendable_channelFull : Sendable channelFull := .mk' (by decide) (by decide) (by decide)

theorem sendable_serverFull : Sendable serverFull := .mk' (by decide) (by decide) (by decide)

section

variable {K : Contract sig} {payload : Bytes} {P E : Hist sig → Prop} {n : Fd}
  (hp : Sendable payload) (hb : ∀ b h, P h → K.before (.send n b) h)
  (hok : ∀ b r h, P h → ¬ Unsent payload ⟨.send n b, r⟩ → P (h ++ [⟨.send n b, r⟩]))
  (hbad : ∀ b r h, P h → Unsent payload ⟨.send n b, r⟩ → E (h ++ [⟨.send n b, r⟩]))

include hp hb hok hbad

theorem abides_sendRest (fuel i : Nat) :
    Abides K P (sendRest n fuel (payload.drop i)) (fun _ => P) (fun _ => E) := by
  induction fuel generalizing i with
  | zero => exact .ret fun _ h => h
  | succ fuel ih =>
    unfold sendRest
    split
    · exact .ret fun _ h => h
    · refine .act (V := fun r h => if r.getD 0 = 0 then E h else P h)
        (fun h hh => hb _ h hh) (fun r h _ hh => ?_)
        fun r => ?_
      · rcases r with _ | _ | k
        · exact hbad _ _ h hh (.inl rfl)
        · exact hbad _ _ h hh (.inr (.inl rfl))
        · refine hok _ _ h hh ?_
          simpa [Unsent] using fun h => absurd h (hp.rest i)
      · rcases r with _ | _ | k
        · exact .raise fun _ h => h
        · exact .raise fun _ h => h
        · have := ih (i + (k + 1))
          rwa [← List.drop_drop] at this

/-- `send_frame` ends with `P` if every `send` went well, and raises with `E` after one that
did not. -/
theorem abides_sendFrame : Abides K P (sendFrame n payload) (fun _ => P) (fun _ => E) := by
  have hmaxlen : payload.length ≤ 16 * 1024 := hp.bounded
  have hlen : payload.length % 2 ^ 32 = payload.length := Nat.mod_eq_of_lt (by omega)
  have hmax : ¬ maxFrameSize < payload.length := by
    unfold maxFrameSize
    omega
  unfold sendFrame
  simp only [hlen]
  rw [if_neg hp.nonempty, if_neg hmax]
  refine .act (V := fun r h => (r = some 4 ∧ P h) ∨ (r ≠ some 4 ∧ E h)) (fun h hh => hb _ h hh)
    (fun r h _ hh => ?_) fun r => ?_
  · by_cases hr : r = some 4
    · refine .inl ⟨hr, hok _ _ h hh ?_⟩
      rw [hr]
      simp [Unsent]
    · exact .inr ⟨hr, hbad _ _ h hh (.inr (.inr ⟨by rw [hlen], hr⟩))⟩
  · by_cases hr : r = some 4
    · subst hr
      exact (abides_sendRest hp hb hok hbad _ 0).conseq
        (fun _ h => h.elim And.right fun h => absurd rfl h.1) (fun _ _ h => h) fun _ _ h => h
    · refine Abides.conseq (A := E) (B := fun _ _ => False) (D := fun _ => E) ?_
        (fun _ h => h.elim (fun h => absurd h.1 hr) And.right) (fun _ _ h => h.elim)
        fun _ _ h => h
      rw [Prog.bind_ret]
      split
      · exact absurd rfl hr
      · exact .raise fun _ h => h

omit hb in
theorem after_sendFrame : After P (sendFrame n payload) (fun _ => P) (fun _ => E) :=
  Abides.after (K := ⟨fun _ _ => True, fun _ _ => True⟩) (fun _ _ => trivial)
    (abides_sendFrame hp (fun _ _ _ => trivial) hok hbad)

end

/-! ## A send makes `send` calls only -/

section

variable {H : Act → Prop} {n : Fd} (hsend : ∀ b, H (.send n b))

include hsend

theorem all_sendRest : ∀ (fuel : Nat) (b : Bytes), (sendRest n fuel b).All H
  | 0, _ => trivial
  | fuel + 1, b => by
    unfold sendRest
    split
    · trivial
    · refine .bind (.perform (hsend b)) fun o => ?_
      rcases o with _ | _ | k
      · trivial
      · trivial
      · exact all_sendRest fuel _

theorem all_sendFrame (b : Bytes) : (sendFrame n b).All H := by
  unfold sendFrame
  simp only
  split
  · trivial
  · split
    · trivial
    · refine .bind (.perform (hsend _)) fun o => ?_
      split
      · exact all_sendRest hsend _ _
      · trivial

end

theorem all_broadcast {H : Act → Prop} (b : Bytes) :
    ∀ l : List Fd, (∀ n ∈ l, ∀ b, H (.send n b)) → (broadcast b l).All H
  | [], _ => trivial
  | n :: ns, hsend => by
    have hone : (sendFrame n b).All H := all_sendFrame (hsend n List.mem_cons_self) b
    exact .bind (.handle (.bind hone fun _ => trivial) fun _ => trivial) fun _ =>
      .bind (all_broadcast b ns fun m hm => hsend m (List.mem_cons_of_mem _ hm)) fun _ => trivial

end ChatChannel
