import ChatChannel.Model.Script
import ChatChannel.Proof.Runs

/-!
# The capacity of a channel

A channel never has more clients and candidates than `ch_max_fd`. The candidates are the entries of
`join_pool` together with those `resolve_pool` has moved out of it and not offered to the tracker
yet; `ping_pool` is read under the lock under which the entry is made, and a new channel, which
nobody pings, is empty.
-/

set_option autoImplicit false

namespace ChatChannel

open Conc

/-- The clients of a channel and those on their way in. -/
def load (c : ChId) (s : St) : Nat :=
  (s.base (.chan c)).clients.card + (s.chan c).joining.length + (s.chan c).joinPool.length

/-- No channel is overbooked. -/
structure Capacity (P : Params) (s : St) : Prop where
  maxFd : ∀ c, (s.base (.chan c)).maxFd = P.chMaxFd
  bound : ∀ c, load c s ≤ asSize P.chMaxFd

section

variable {P : Params} {t : Srv} {a : Act} {r : Res a} {s s' : St} {c : ChId}

/-- The load after a call. -/
theorem exec_load (h : exec t a r s = some s') : load c s' =
    (After.clients t s (.chan c) a r).card + (After.joining t s c a r).length +
      (After.joinPool t s c a r).length := by
  unfold load
  rw [exec_clients h, exec_joining h, exec_joinPool h]

theorem maxFd_step (hmax : (s.base (.chan c)).maxFd = P.chMaxFd) (hp : Pre P t a s)
    (h : exec t a r s = some s') : (s'.base (.chan c)).maxFd = P.chMaxFd := by
  rw [exec_maxFd h]
  cases a
  case newTracker d m =>
    cases t with
    | chan e => exact hp.2.elim
    | lobby => simp [After.maxFd, hp.1, hmax]
  all_goals exact hmax

theorem length_erase_mem {n : Fd} {l : List Fd} (h : n ∈ l) : (l.erase n).length + 1 = l.length := by
  rw [List.length_erase_of_mem h]
  have := List.length_pos_of_mem h
  omega

/-- Only an entry in `join_pool` adds to the load, and it is made where there is room. -/
theorem load_step (hcap : Capacity P s) (hpos : 1 ≤ asSize P.chMaxFd) (hw : Wf s) (hp : Pre P t a s)
    (h : exec t a r s = some s') (c : ChId) : load c s' ≤ asSize P.chMaxFd := by
  have hl := hcap.bound c
  rw [exec_load h]
  cases a
  case emplaceJoin d n m =>
    by_cases hc : c = d
    · subst hc
      cases t with
      | chan e => exact hp.2.elim
      | lobby =>
        obtain ⟨hm, -, -, -, hroom, -⟩ := hp
        -- the lobby has the lock, so `resolve_pool` is not under way
        have hj : (s.chan c).joining = [] := (hw.unlocked c (by simp [hm])).1
        have hlen := length_emplace_le n m (s.chan c).joinPool
        simp only [After.clients, After.joining, After.joinPool, if_true, hj, List.length_nil]
        rcases hroom with hroom | hhollow
        · unfold Room at hroom
          rw [hcap.maxFd c] at hroom
          omega
        · rw [hhollow.joinPool] at hlen ⊢
          simp only [hhollow.clients, Finset.card_empty]
          simp only [List.length_nil] at hlen
          omega
    · simpa [After.clients, After.joining, After.joinPool, hc, load] using hl
  case takeJoinPool =>
    cases t with
    | lobby => exact hp.elim
    | chan e =>
      by_cases hc : c = e
      · subst hc
        have hj : (s.chan c).joining = [] := hp.2.2.1
        have hperm : r.Perm (s.chan c).joinPool := (need_eq_some.mp h).1
        have hlen : (keys r).length = (s.chan c).joinPool.length := by
          simpa [keys] using hperm.length_eq
        simp only [load, hj, List.length_nil] at hl
        simp only [After.clients, After.joining, After.joinPool, own, if_true, hlen,
          List.length_nil]
        omega
      · simpa [After.clients, After.joining, After.joinPool, own, hc, load] using hl
  case addClient n =>
    cases t with
    | lobby => simpa [After.clients, After.joining, After.joinPool, load] using hl
    | chan e =>
      by_cases hc : c = e
      · subst hc
        have hmem : n ∈ (s.chan c).joining := hp.2.2.1
        have hlen := length_erase_mem hmem
        have hins := Finset.card_insert_le n (s.base (.chan c)).clients
        simp only [load] at hl
        simp only [After.clients, After.joining, After.joinPool, own, if_true, reduceCtorEq,
          if_false]
        split <;> omega
      · simpa [After.clients, After.joining, After.joinPool, own, hc, load] using hl
  case deleteClient n =>
    have hle : (After.clients t s (.chan c) (.deleteClient n) r).card
        ≤ (s.base (.chan c)).clients.card := by
      simp only [After.clients]
      split
      · split
        · exact Finset.card_le_card (Finset.erase_subset _ _)
        · exact le_rfl
      · exact le_rfl
    simp only [load] at hl
    simp only [After.joining, After.joinPool]
    omega
  case newTracker d m =>
    by_cases hc : c = d
    · simp [After.clients, After.joining, After.joinPool, hc]
    · simpa [After.clients, After.joining, After.joinPool, hc, load] using hl
  case dropTracker d =>
    by_cases hc : c = d
    · simp [After.clients, After.joining, After.joinPool, hc]
    · simpa [After.clients, After.joining, After.joinPool, hc, load] using hl
  all_goals exact hl

theorem Capacity.step (hcap : Capacity P s) (hpos : 1 ≤ asSize P.chMaxFd) (hw : Wf s)
    (hp : Pre P t a s) (h : exec t a r s = some s') : Capacity P s' :=
  ⟨fun c => maxFd_step (hcap.maxFd c) hp h, load_step hcap hpos hw hp h⟩

theorem capacity_init : Capacity P (init P) :=
  ⟨fun _ => rfl, fun _ => by simp [load, init, Base.fresh, Chan.fresh]⟩

theorem asSize_of_pos {m : Int32} (h : 1 ≤ m.toInt) : (asSize m : Int) = m.toInt := by
  have hlt := m.toInt_lt
  unfold asSize
  omega

/-- A channel that is offered a client has room for it. -/
theorem Capacity.not_full (hcap : Capacity P s) {n : Fd} (hn : n ∈ (s.chan c).joining) :
    ¬ s.isFull (.chan c) := by
  have hl := hcap.bound c
  have hlen := List.length_pos_of_mem hn
  unfold St.isFull
  rw [hcap.maxFd c]
  simp only [load] at hl
  omega

end

/-- **Channel capacity.** On every run of a server with `ch_max_fd >= 1`: whenever a channel's
`pool_mtx` is free, its clients and the entries of its `join_pool` are at most `ch_max_fd`, and
`add_client` never raises `POOL_FULL` in a channel. -/
theorem capacity (P : Params) (hmax : 1 ≤ P.chMaxFd.toInt) {tr : List Ev}
    {k : Config sig Srv St} (h : (server P).Run (init P) tr k) :
    (∀ c, (k.st.chan c).mtx = none →
      (((k.st.base (.chan c)).clients.card + (k.st.chan c).joinPool.length : Nat) : Int)
        ≤ P.chMaxFd.toInt) ∧
    ∀ e ∈ tr, ∀ c n, e.tid = .chan c → (⟨e.act, e.res⟩ : Call sig) ≠ ⟨.addClient n, .full⟩ := by
  have hsize := asSize_of_pos hmax
  have hpos : 1 ≤ asSize P.chMaxFd := by omega
  obtain ⟨hend, hall⟩ := run_invariant (C := fun _ => True) capacity_init
    (fun e hl _ hi => Capacity.step hi hpos hl.wf hl.pre hl.exec) h fun _ _ => trivial
  refine ⟨fun c _ => ?_, ?_⟩
  · have hl := hend.bound c
    simp only [load] at hl
    omega
  · rintro ⟨t, a, r, s, s'⟩ he c n rfl heq
    cases heq
    have hleg := legal h _ he
    have hn : n ∈ (s.chan c).joining := hleg.pre.2.2.1
    exact (hall _ he).not_full hn (need_eq_some.mp hleg.exec).1.2

/-- With a client settled in a channel. -/
theorem capacity_settled : ∃ (tr : List Ev) (k : Config sig Srv St),
    ((server sample).Run (init sample) tr k ∧ (k.st.base (.chan 1)).clients = {5}) ∧
    (∀ c, (k.st.chan c).mtx = none →
      (((k.st.base (.chan c)).clients.card + (k.st.chan c).joinPool.length : Nat) : Int)
        ≤ sample.chMaxFd.toInt) ∧
    ∀ e ∈ tr, ∀ c n, e.tid = .chan c → (⟨e.act, e.res⟩ : Call sig) ≠ ⟨.addClient n, .full⟩ := by
  obtain ⟨tr, k, h, hc⟩ : ∃ tr k, (server sample).Run (init sample) tr k ∧
      (k.st.base (.chan 1)).clients = {5} := exists_run (settles 5 1) (by decide +kernel)
  exact ⟨tr, k, ⟨h, hc⟩, capacity sample (by decide) h⟩

end ChatChannel
