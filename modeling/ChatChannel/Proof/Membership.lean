import ChatChannel.Model.Script
import ChatChannel.Proof.Runs

/-!
# Where a client is

A client is handed from the lobby to a channel, and from channel to channel, through pools that are
applied later. At every moment some server should have it, or be about to take it in: the entry in
the new channel's `join_pool` is made before the old server lets go. An entry in the `leave_pool` of
the same channel spoils it, since joins are applied before leaves.
-/

set_option autoImplicit false

namespace ChatChannel

open Conc

/-- Channel `c` has the client or is about to take it in, and is not about to let it go. -/
def HasPlace (c : ChId) (n : Fd) (s : St) : Prop :=
  (n ∈ (s.base (.chan c)).clients ∨ n ∈ (s.chan c).joining ∨ n ∈ keys (s.chan c).joinPool) ∧
    n ∉ keys (s.chan c).leavePool ∧ n ∉ (s.chan c).leaving

def Anchored (n : Fd) (s : St) : Prop :=
  n ∈ (s.base .lobby).clients ∨ ∃ c, HasPlace c n s

/-- A `resolve_deletion` has taken the client out of its tracker and closes it next. -/
def Doomed (n : Fd) (s : St) : Prop := ∃ v, (s.base v).aux.cursor = some (n, .doomed)

/-- Nothing goes wrong with a move: nobody enters a channel that has not let go of him yet, a channel
that is asked to take someone in gets a thread, and epoll refuses a connection only if the channel
has it. -/
def Smooth (e : Ev) : Prop :=
  match e with
  | ⟨_, .emplaceJoin c n _, _, s, _⟩ => n ∉ keys (s.chan c).leavePool
  | ⟨_, .startWorker c, r, s, _⟩ => r = false → c ∉ s.lobby.ids
  | ⟨.chan c, .addClient n, r, s, _⟩ =>
    r ≠ .ok → n ∈ (s.base (.chan c)).clients ∨ File.conn? (s.file n) = none
  | _ => True

instance (e : Ev) : Decidable (Smooth e) := by
  obtain ⟨t, a, r, s, s'⟩ := e
  induction a using Act.casesOn
  case emplaceJoin c n m => exact inferInstanceAs (Decidable (n ∉ keys (s.chan c).leavePool))
  case startWorker c => exact inferInstanceAs (Decidable (r = false → c ∉ s.lobby.ids))
  case addClient n =>
    induction t using Srv.casesOn with
    | lobby => exact inferInstanceAs (Decidable True)
    | chan c => exact inferInstanceAs (Decidable (r ≠ .ok →
        n ∈ (s.base (.chan c)).clients ∨ File.conn? (s.file n) = none))
  all_goals exact inferInstanceAs (Decidable True)

structure Kept (s : St) : Prop where
  kept : ∀ n k, s.file n = some (.conn k) → .admitted k ∈ s.log → Anchored n s ∨ Doomed n s
  spawned : ¬ SpawnFailed s
  apart : ∀ q ∈ underWay s, q.join.chFrom ≠ q.join.chTo
  /-- The entry the lobby is about to publish is not spoilt. -/
  entry : ∀ c n, (s.base .lobby).aux.placed = some (c, n, false) → (s.chan c).mtx = some .lobby →
    n ∉ keys (s.chan c).leavePool

section

variable {P : Params} {t : Srv} {a : Act} {r : Res a} {s s' : St} {c : ChId} {n : Fd}

theorem hasPlace_exec (h : exec t a r s = some s') : HasPlace c n s' ↔
    (n ∈ After.clients t s (.chan c) a r ∨ n ∈ After.joining t s c a r ∨
      n ∈ keys (After.joinPool t s c a r)) ∧
    n ∉ keys (After.leavePool t s c a r) ∧ n ∉ After.leaving t s c a r := by
  unfold HasPlace
  rw [exec_clients h, exec_joining h, exec_joinPool h, exec_leavePool h, exec_leaving h]

theorem Hollow.not_hasPlace (hh : Hollow c s) : ¬ HasPlace c n s := by
  rintro ⟨hn, -⟩
  simp [hh.clients, hh.joinPool, hh.joining, keys] at hn

/-- A channel lets go of a client only in its own loops, or after the lobby put it in its
`leave_pool`. -/
theorem HasPlace.step (hs : HasPlace c n s) (hw : Wf s) (hp : Pre P t a s)
    (h : exec t a r s = some s') (hdel : t = .chan c → a ≠ .deleteClient n)
    (hadd : ∀ x : AddRes, t = .chan c → (⟨a, r⟩ : Call sig) = ⟨.addClient n, x⟩ → x ≠ .ok →
      n ∈ (s.base (.chan c)).clients)
    (hleave : ∀ m, a ≠ .emplaceLeave c n m) : HasPlace c n s' := by
  have hold := hs
  unfold HasPlace at hold
  obtain ⟨hin, hlp, hlv⟩ := id hold
  rw [hasPlace_exec h]
  cases a
  case addClient m =>
    by_cases hc : t = .chan c
    · subst hc
      simp only [After.clients, After.joining, After.joinPool, After.leavePool, After.leaving, own,
        if_true, reduceCtorEq, if_false]
      refine ⟨?_, hlp, hlv⟩
      by_cases hm : n = m
      · subst hm
        left
        by_cases hr : r = .ok
        · simp [hr]
        · simpa [hr] using hadd r rfl rfl hr
      · have hcl : n ∈ (s.base (.chan c)).clients → n ∈ if r = .ok then insert m
            (s.base (.chan c)).clients else (s.base (.chan c)).clients := by
          intro hn
          split
          · exact Finset.mem_insert_of_mem hn
          · exact hn
        exact hin.imp hcl (.imp_left (List.mem_erase_of_ne hm).mpr)
    · have hv : Srv.chan c ≠ t := Ne.symm hc
      have hj : After.joining t s c (.addClient m) r = (s.chan c).joining := by
        cases t with
        | lobby => simp [After.joining]
        | chan d =>
          have hcd : c ≠ d := fun hcd => hc (by rw [hcd])
          simp [After.joining, own, hcd]
      rw [hj]
      simpa [After.clients, After.joinPool, After.leavePool, After.leaving, hv] using hold
  case deleteClient m =>
    by_cases hc : t = .chan c
    · subst hc
      have hm : n ≠ m := by
        rintro rfl
        exact hdel rfl rfl
      simp only [After.clients, After.joining, After.joinPool, After.leavePool, After.leaving, own,
        if_true, reduceCtorEq, if_false]
      refine ⟨hin.imp_left fun hn => ?_, hlp, fun hl => hlv (List.mem_of_mem_erase hl)⟩
      split
      · exact Finset.mem_erase.mpr ⟨hm, hn⟩
      · exact hn
    · have hv : Srv.chan c ≠ t := Ne.symm hc
      have hl : After.leaving t s c (.deleteClient m) r = (s.chan c).leaving := by
        cases t with
        | lobby => simp [After.leaving]
        | chan d =>
          have hcd : c ≠ d := fun hcd => hc (by rw [hcd])
          simp [After.leaving, own, hcd]
      rw [hl]
      simpa [After.clients, After.joinPool, After.leavePool, After.joining, hv] using hold
  case takeJoinPool =>
    cases t with
    | lobby => exact hp.elim
    | chan d =>
      by_cases hc : c = d
      · subst hc
        have hj : (s.chan c).joining = [] := hp.2.2.1
        have hperm : r.Perm (s.chan c).joinPool := (need_eq_some.mp h).1
        simp only [After.clients, After.joining, After.joinPool, After.leavePool, After.leaving,
          own, if_true]
        refine ⟨hin.imp_right fun hn => .inl ?_, hlp, hlv⟩
        rw [hj] at hn
        exact (keys_perm hperm).mem_iff.mpr (hn.resolve_left (by simp))
      · simpa [After.clients, After.joining, After.joinPool, After.leavePool, After.leaving, own, hc]
          using hold
  case takeLeavePool =>
    cases t with
    | lobby => exact hp.elim
    | chan d =>
      by_cases hc : c = d
      · subst hc
        have hperm : r.Perm (s.chan c).leavePool := (need_eq_some.mp h).1
        simp only [After.clients, After.joining, After.joinPool, After.leavePool, After.leaving,
          own, if_true]
        exact ⟨hin, by simp, fun hl => hlp ((keys_perm hperm).mem_iff.mp hl)⟩
      · simpa [After.clients, After.joining, After.joinPool, After.leavePool, After.leaving, own, hc]
          using hold
  case emplaceJoin d m x =>
    by_cases hc : c = d
    · subst hc
      simp only [After.clients, After.joining, After.joinPool, After.leavePool, After.leaving,
        if_true]
      exact ⟨hin.imp_right (.imp_right fun hn => mem_keys_emplace.mpr (.inr hn)), hlp, hlv⟩
    · simpa [After.clients, After.joining, After.joinPool, After.leavePool, After.leaving, hc]
        using hold
  case emplaceLeave d m x =>
    by_cases hc : c = d
    · subst hc
      have hm : n ≠ m := by
        rintro rfl
        exact hleave x rfl
      simp only [After.clients, After.joining, After.joinPool, After.leavePool, After.leaving,
        if_true, mem_keys_emplace]
      exact ⟨hin, fun hn => hn.elim hm hlp, hlv⟩
    · simpa [After.clients, After.joining, After.joinPool, After.leavePool, After.leaving, hc]
        using hold
  case newTracker d m =>
    cases t with
    | chan e => exact hp.2.elim
    | lobby =>
      have hc : c ≠ d := by
        rintro rfl
        exact (hw.vacant c hp.2.2).not_hasPlace hs
      simpa [After.clients, After.joining, After.joinPool, After.leavePool, After.leaving, hc]
        using hold
  case dropTracker d =>
    cases t with
    | chan e => exact hp.2.elim
    | lobby =>
      have hc : c ≠ d := by
        rintro rfl
        exact Hollow.not_hasPlace hp.2 hs
      simpa [After.clients, After.joining, After.joinPool, After.leavePool, After.leaving, hc]
        using hold
  all_goals exact hold

/-- The lobby lets go of a client only by asking its tracker to delete it. -/
theorem lobby_clients_step (hn : n ∈ (s.base .lobby).clients) (h : exec t a r s = some s')
    (hdel : t = .lobby → a ≠ .deleteClient n) : n ∈ (s'.base .lobby).clients := by
  rw [exec_clients h]
  cases a
  case addClient m =>
    simp only [After.clients]
    split
    · split
      · exact Finset.mem_insert_of_mem hn
      · exact hn
    · exact hn
  case deleteClient m =>
    simp only [After.clients]
    split
    · rename_i ht
      split
      · refine Finset.mem_erase.mpr ⟨?_, hn⟩
        rintro rfl
        exact hdel ht.symm rfl
      · exact hn
    · exact hn
  case newTracker d m => simpa [After.clients] using hn
  case dropTracker d => simpa [After.clients] using hn
  all_goals exact hn

/-- A client that is about to be closed stays so until it is closed. -/
theorem Doomed.step {k : Nat} (hd : Doomed n s) (hw : Wf s) (hp : Pre P t a s)
    (h : exec t a r s = some s') (hk : s'.file n = some (.conn k)) : Doomed n s' := by
  obtain ⟨v, hv⟩ := hd
  rcases doomed_step hw hp h hv with hv | rfl
  · exact ⟨v, hv⟩
  · rw [exec_file h] at hk
    exact absurd rfl (closeFile_conn.mp hk).1

/-- What `resolve_deletion` takes from its tracker it closes next. -/
theorem doomed_of_picked (hc : (s.base t).aux.cursor = some (n, .picked)) {r : Bool}
    (h : exec t (.deleteClient n) r s = some s') (hr : r = true ∨ t ≠ .lobby) : Doomed n s' :=
  ⟨t, by rw [exec_cursor h]; simp [After.cursor, hc, hr]⟩

/-- Whoever the lobby lets go of is in a channel's pool, or about to be closed. -/
theorem Kept.deleted {k : Nat} {r : Bool} (hi : Kept s) (hw : Wf s)
    (hp : Pre P .lobby (.deleteClient n) s) (h : exec .lobby (.deleteClient n) r s = some s')
    (hn : n ∈ (s.base .lobby).clients) (hk : s.file n = some (.conn k))
    (hadm : .admitted k ∈ s.log) (hk' : s'.file n = some (.conn k)) :
    Anchored n s' ∨ Doomed n s' := by
  cases r with
  | false =>
    left
    left
    rw [exec_clients h]
    simpa [After.clients] using hn
  | true =>
    rcases id hp with hc | ⟨-, -, -, ⟨c, hpl, hm, hj⟩ | ⟨-, hex | hfail⟩⟩
    · exact .inr (doomed_of_picked hc h (.inl rfl))
    · have hlv : (s.chan c).leaving = [] := (hw.unlocked c (by simp [hm])).2
      have hs : HasPlace c n s := ⟨.inr (.inr hj), hi.entry c n hpl hm, by simp [hlv]⟩
      exact .inl (.inr ⟨c, hs.step hw hp h (by simp) (by simp) (by simp)⟩)
    · rcases hex with ⟨c, hc⟩ | hnot
      · exact .inr (Doomed.step ⟨.chan c, hc⟩ hw hp h hk')
      · exact absurd hadm (hnot k hk)
    · exact absurd hfail hi.spawned

/-- Whoever is put into a `leave_pool` has been put into the `join_pool` of another channel. -/
theorem Kept.left {m : MessageReqDto} {r : Unit} (hi : Kept s) (hw : Wf s)
    (hp : Pre P .lobby (.emplaceLeave c n m) s)
    (h : exec .lobby (.emplaceLeave c n m) r s = some s') : Anchored n s' := by
  obtain ⟨-, q, hreq, -, rfl, ⟨hpl, hm, hj⟩ | ⟨-, hfail⟩⟩ := id hp
  · have hne := hi.apart q (mem_underWay.mpr (.inr (.inr hreq)))
    have hlv : (s.chan q.join.chTo).leaving = [] := (hw.unlocked _ (by simp [hm])).2
    have hs : HasPlace q.join.chTo n s := ⟨.inr (.inr hj), hi.entry _ n hpl hm, by simp [hlv]⟩
    exact .inr ⟨_, hs.step hw hp h (by simp) (by simp) (by simp [hne])⟩
  · exact absurd hfail hi.spawned

/-- An admitted connection does not get lost. -/
theorem Kept.old {k : Nat} (hi : Kept s) (hw : Wf s) (hp : Pre P t a s)
    (hC : Smooth ⟨t, a, r, s, s'⟩) (h : exec t a r s = some s') (hk : s.file n = some (.conn k))
    (hadm : .admitted k ∈ s.log) (hk' : s'.file n = some (.conn k)) :
    Anchored n s' ∨ Doomed n s' := by
  rcases hi.kept n k hk hadm with (hlobby | ⟨c, hc⟩) | hd
  · by_cases hdel : t = .lobby ∧ a = .deleteClient n
    · obtain ⟨rfl, rfl⟩ := hdel
      exact hi.deleted hw hp h hlobby hk hadm hk'
    · exact .inl (.inl (lobby_clients_step hlobby h fun ht ha => hdel ⟨ht, ha⟩))
  · by_cases hdel : t = .chan c ∧ a = .deleteClient n
    · obtain ⟨rfl, rfl⟩ := hdel
      rcases hp.2 with ⟨-, hl, -⟩ | ⟨-, hcur⟩
      · exact absurd hl hc.2.2
      · exact .inr (doomed_of_picked hcur h (.inr (by simp)))
    by_cases hleave : ∃ m, a = .emplaceLeave c n m
    · obtain ⟨m, rfl⟩ := hleave
      cases t with
      | chan d => exact hp.2.elim
      | lobby => exact .inl (hi.left hw hp h)
    refine .inl (.inr ⟨c, hc.step hw hp h (fun ht ha => hdel ⟨ht, ha⟩) ?_ fun m ha =>
      hleave ⟨m, ha⟩⟩)
    rintro x rfl hx hne
    cases hx
    exact (hC hne).resolve_right (by simp [hk, File.conn?])
  · exact .inr (hd.step hw hp h hk')

theorem Kept.kept_step {k : Nat} (hi : Kept s) (hw : Wf s) (hp : Pre P t a s)
    (hC : Smooth ⟨t, a, r, s, s'⟩) (h : exec t a r s = some s') (hk' : s'.file n = some (.conn k))
    (hadm : .admitted k ∈ s'.log) : Anchored n s' ∨ Doomed n s' := by
  have hk : s.file n = some (.conn k) := by
    rcases conn_before h hk' with hk | ⟨rfl, hnext⟩
    · exact hk
    · rcases admitted_before h hadm with hold | ⟨m, rfl, rfl, -⟩
      · exact absurd (hw.admitted _ hold) (lt_irrefl _)
      · rw [exec_nextConn h] at hnext
        simp [After.nextConn] at hnext
  by_cases hold : .admitted k ∈ s.log
  · exact hi.old hw hp hC h hk hold hk'
  rcases admitted_before h hadm with hadm | ⟨m, rfl, rfl, hm⟩
  · exact absurd hadm hold
  · -- the lobby's tracker has just taken it
    obtain rfl := hw.single n m k hk hm
    left
    left
    rw [exec_log h] at hadm
    rw [exec_clients h]
    cases r <;> simp_all [After.log, After.clients]

theorem Kept.step (hi : Kept s) (hw : Wf s) (hp : Pre P t a s) (hC : Smooth ⟨t, a, r, s, s'⟩)
    (h : exec t a r s = some s') : Kept s' where
  kept := fun _ _ hk hadm => hi.kept_step hw hp hC h hk hadm
  spawned := by
    rintro ⟨c, hc⟩
    rw [exec_log h, List.mem_append] at hc
    refine hc.elim (fun hold => hi.spawned ⟨c, hold⟩) fun hnew => ?_
    clear hc
    cases a
    case startWorker d =>
      cases r with
      | true => simp [After.log] at hnew
      | false =>
        have hd : d ∉ s.lobby.ids := hC rfl
        simp [After.log, hd] at hnew
    case recv n => cases r <;> simp [After.log] at hnew
    case addClient n => cases r <;> simp [After.log] at hnew
    all_goals simp [After.log] at hnew
  apart := by
    intro q hq
    rcases underWay_before h hq with hq | ⟨p, rfl, -⟩
    · exact hi.apart q hq
    · cases t with
      | lobby => exact hp.elim
      | chan c =>
        obtain ⟨-, -, hfrom, hto⟩ := hp.2
        rw [hfrom]
        exact hto.symm
  entry := by
    intro c n hpl hm
    rw [exec_placed h] at hpl
    rw [exec_mtx h] at hm
    rw [exec_leavePool h]
    have hold := hi.entry c n
    cases a
    case emplaceJoin d m x =>
      cases t with
      | chan e => exact hp.2.elim
      | lobby =>
        simp only [After.placed, if_true, Option.some.injEq, Prod.mk.injEq, and_true] at hpl
        obtain ⟨rfl, rfl⟩ := hpl
        exact hC
    case emplaceLeave d m x =>
      cases t with
      | chan e => exact hp.2.elim
      | lobby =>
        obtain ⟨p, hp', heq⟩ := Option.map_eq_some_iff.mp hpl
        split at heq
        · simp at heq
        · subst heq
          simp only [After.leavePool]
          split
          · rw [mem_keys_emplace]
            rintro (rfl | hn)
            · simp_all
            · exact hold hp' hm hn
          · exact hold hp' hm
    case deleteClient m =>
      refine hold ?_ hm
      simp only [After.placed] at hpl
      split at hpl
      · obtain ⟨p, hp', heq⟩ := Option.map_eq_some_iff.mp hpl
        split at heq
        · simp at heq
        · exact heq ▸ hp'
      · exact hpl
    case lockPool d =>
      cases t with
      | lobby => simp [After.placed] at hpl
      | chan e =>
        by_cases hd : c = d
        · simp [After.mtx, hd] at hm
        · exact hold (by simpa [After.placed] using hpl) (by simpa [After.mtx, hd] using hm)
    case unlockPool d =>
      by_cases hd : c = d
      · simp [After.mtx, hd] at hm
      · exact hold (Option.ite_none_left_eq_some.mp hpl).2 (by simpa [After.mtx, hd] using hm)
    case takeLeavePool =>
      simp only [After.leavePool]
      split
      · simp
      · exact hold hpl hm
    case newTracker d m =>
      by_cases hd : c = d
      · simp [After.leavePool, hd]
      · simpa [After.leavePool, hd] using
          hold (by simpa [After.placed] using hpl) (by simpa [After.mtx, hd] using hm)
    case dropTracker d =>
      by_cases hd : c = d
      · simp [After.leavePool, hd]
      · simpa [After.leavePool, hd] using
          hold (by simpa [After.placed] using hpl) (by simpa [After.mtx, hd] using hm)
    case endRecv => exact hold (Option.ite_none_left_eq_some.mp hpl).2 hm
    case setCursor o => exact hold (Option.ite_none_left_eq_some.mp hpl).2 hm
    case nextReport => exact hold (Option.ite_none_left_eq_some.mp hpl).2 hm
    case dropReports => exact hold (Option.ite_none_left_eq_some.mp hpl).2 hm
    all_goals exact hold hpl hm

theorem kept_init : Kept (init P) where
  kept := fun _ _ _ hadm => absurd hadm (by simp [init])
  spawned := by simp [SpawnFailed, init]
  apart := by simp [underWay, init]
  entry := by simp [init, Base.fresh, Aux.fresh]

/-- Outside the critical sections of `resolve_pool` nobody is on the way from one set to another. -/
theorem Anchored.tracked (hn : Anchored n s) (hw : Wf s)
    (hm : ∀ c, (s.chan c).mtx ≠ some (.chan c)) : n ∈ (s.base .lobby).clients ∨
      ∃ c, n ∈ (s.base (.chan c)).clients ∨ n ∈ keys (s.chan c).joinPool := by
  refine hn.imp_right ?_
  rintro ⟨c, hc, -⟩
  rw [(hw.unlocked c (hm c)).1] at hc
  exact ⟨c, by simpa using hc⟩

end

/-- No thread is in the critical section of a `resolve_pool`, or between `delete_client` and `close` in
a `resolve_deletion` of `n`. -/
def Outside (n : Fd) (s : St) : Prop :=
  (∀ c, (s.chan c).mtx ≠ some (.chan c)) ∧ ¬ Doomed n s

/-- A client that was admitted and is not closed is with a server, or waits to be taken in. -/
def Somewhere (s : St) : Prop :=
  ∀ n k, s.file n = some (.conn k) → .admitted k ∈ s.log → Outside n s →
    n ∈ (s.base .lobby).clients ∨
      ∃ c, n ∈ (s.base (.chan c)).clients ∨ n ∈ keys (s.chan c).joinPool

/-- **Nobody gets lost on the way.** On every run whose moves go smoothly, in every state. -/
theorem membership_conserved (P : Params) {tr : List Ev} {k : Config sig Srv St}
    (h : (server P).Run (init P) tr k) (hC : ∀ e ∈ tr, Smooth e) :
    Somewhere k.st ∧ ∀ e ∈ tr, Somewhere e.pre := by
  obtain ⟨hend, hall⟩ := run_invariant kept_init
    (fun e hl hc hi => Kept.step hi hl.wf hl.pre hc hl.exec) h hC
  have hsome : ∀ s, Wf s → Kept s → Somewhere s := fun s hw hi n k hk hadm hout =>
    ((hi.kept n k hk hadm).resolve_right hout.2).tracked hw hout.1
  exact ⟨hsome _ (server_verified h).inv hend, fun e he => hsome _ (legal h e he).wf (hall e he)⟩

/-- A client moves from channel 1 to channel 2, and everybody takes notice. -/
def moveOver : List (Turn Srv Input) :=
  settles 5 1 ++ [tick (.chan 1) (sends 5 (switchFrame 2)), tick .lobby {}, tick (.chan 2) {},
    tick (.chan 1) {}]

theorem membership_conserved_switch : ∃ (tr : List Ev) (k : Config sig Srv St),
    ((server sample).Run (init sample) tr k ∧ (k.st.base (.chan 1)).clients = ∅ ∧
      (k.st.base (.chan 2)).clients = {5}) ∧
    Somewhere k.st ∧ ∀ e ∈ tr, Somewhere e.pre := by
  obtain ⟨tr, k, h, hc, hC⟩ : ∃ tr k, (server sample).Run (init sample) tr k ∧
      ((k.st.base (.chan 1)).clients = ∅ ∧ (k.st.base (.chan 2)).clients = {5}) ∧
      ∀ e ∈ tr, Smooth e := exists_run moveOver (by decide +kernel)
  exact ⟨tr, k, ⟨h, hc⟩, membership_conserved sample h hC⟩

/-- A client moves from channel 1 to channel 2 and back before channel 1 has let go of it. -/
def comeBack : List (Turn Srv Input) :=
  settles 5 1 ++ [tick (.chan 1) (sends 5 (switchFrame 2)), tick .lobby {}, tick (.chan 2) {},
    tick (.chan 2) (sends 5 (switchFrame 1)), tick .lobby {}, tick (.chan 1) {}, tick (.chan 2) {}]

/-- Channel 1 cannot add it, since it has it still, and then lets go of it. -/
theorem membership_lost : ∃ tr k, (server sample).Run (init sample) tr k ∧
    (∀ v, (k.st.base v).aux.cursor = none) ∧ ¬ Somewhere k.st := by
  obtain ⟨tr, k, h, hw, hids, hcur, hlob, hout, hfile, hadm⟩ : ∃ tr k,
      (server sample).Run (init sample) tr k ∧
      (∀ e ∈ tr, Within [.lobby, .chan 1, .chan 2] e) ∧ k.st.lobby.ids = [1, 2] ∧
      (∀ v ∈ [Srv.lobby, .chan 1, .chan 2], (k.st.base v).aux.cursor = none) ∧
      5 ∉ (k.st.base .lobby).clients ∧
      k.st.lobby.ids.all (fun c => (k.st.chan c).mtx = none ∧
        5 ∉ (k.st.base (.chan c)).clients ∧ 5 ∉ keys (k.st.chan c).joinPool) = true ∧
      k.st.file 5 = some (.conn 0) ∧ LogEv.admitted 0 ∈ k.st.log :=
    exists_run comeBack (by decide +kernel)
  simp only [List.all_eq_true, decide_eq_true_eq] at hout
  have hconf := (confined h hw).1
  have hrest : ∀ v, (k.st.base v).aux.cursor = none := by
    intro v
    by_contra hne
    exact hne (hcur v (hconf.cursor v hne))
  have hmtx : ∀ c, (k.st.chan c).mtx ≠ some (.chan c) := by
    intro c hm
    have hc : c ∈ k.st.lobby.ids := by
      have hv := hconf.holder c _ hm
      rw [hids]
      simpa using hv
    rw [(hout c hc).1] at hm
    cases hm
  refine ⟨tr, k, h, hrest, fun hs => ?_⟩
  have hopen : Outside 5 k.st := ⟨hmtx, fun ⟨v, hv⟩ => by rw [hrest v] at hv; cases hv⟩
  rcases hs 5 0 hfile hadm hopen with hn | ⟨c, hn⟩
  · exact hlob hn
  · by_cases hc : c ∈ k.st.lobby.ids
    · obtain ⟨-, hcl, hj⟩ := hout c hc
      exact hn.elim hcl hj
    · -- a channel that was never made has nobody
      have hvac := (server_verified h).inv.vacant c hc
      simp [hvac.clients, hvac.joinPool, keys] at hn

end ChatChannel
