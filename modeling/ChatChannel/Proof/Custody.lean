import ChatChannel.Proof.Listening

/-!
# What the lobby's tracker watches

The lobby deletes a client only after it has told its epoll instance to let go of it, so a client that is not
registered there could never be taken out. As long as nobody else closes what the lobby tracks, every client
of the lobby is open and registered (`Custody`): the instance itself has number 4 from the start, and no
server ever has this number of anything else.
-/

set_option autoImplicit false

namespace ChatChannel

open Conc

/-- A client of the lobby is closed, and not by the lobby's `resolve_deletion`: by the worker of a channel, or
in the destructor of one. -/
def Robs (e : Ev) : Prop :=
  ∃ n, e.act = .close n ∧ n ∈ (e.pre.base .lobby).clients ∧
    (e.tid = .lobby → (e.pre.base .lobby).aux.cursor = none)

instance : DecidablePred Robs := by
  rintro ⟨t, a, r, s, s'⟩
  induction a using Act.casesOn
  case close n =>
    refine decidable_of_iff (n ∈ (s.base .lobby).clients ∧
      (t = .lobby → (s.base .lobby).aux.cursor = none)) ⟨fun h => ⟨n, rfl, h⟩, ?_⟩
    rintro ⟨m, hm, h⟩
    cases hm
    exact h
  all_goals exact isFalse (by rintro ⟨m, hm, -⟩; cases hm)

/-- The lobby's epoll instance is open, and every client is open and registered there. -/
structure Custody (s : St) : Prop where
  possesses : Possesses (· ≠ lobbyEpoll) (· ≠ lobbyEpoll) s
  interest : ∀ m, lobbyEpoll ∉ File.interest (s.file m)
  efd : (s.base .lobby).efd = lobbyEpoll
  kind : s.kind lobbyEpoll = some (.epoll ∅)
  efds : ∀ c, (s.base (.chan c)).efd ≠ lobbyEpoll
  listenFd : s.listenFd ≠ lobbyEpoll
  doomed : ∀ n, (s.base .lobby).aux.cursor = some (n, .doomed) → n ∉ (s.base .lobby).clients
  clients : ∀ n ∈ (s.base .lobby).clients,
    n ≠ fdErr ∧ n ≠ s.listenFd ∧ s.kind n ≠ none ∧ n ∈ s.registered .lobby

section

variable {P : Params} {t : Srv} {a : Act} {r : Res a} {s s' : St} {n : Fd}

theorem kind_eq_none : s.kind n = none ↔ s.file n = none := Option.map_eq_none_iff

/-- What is opened was free, so it is no number in use. -/
theorem ne_of_free {m : Fd} (hm : s.file m = none) (hn : s.kind n ≠ none) : n ≠ m := by
  rintro rfl
  exact hn (kind_eq_none.mpr hm)

namespace Custody

theorem conn_ne (hi : Custody s) {k : Nat} (hk : s.file n = some (.conn k)) : n ≠ lobbyEpoll := by
  rintro rfl
  have hkind := hi.kind
  rw [St.kind, hk] at hkind
  cases hkind

theorem free_ne (hi : Custody s) (hn : s.file n = none) : n ≠ lobbyEpoll := by
  rintro rfl
  have hkind := hi.kind
  rw [St.kind, hn] at hkind
  cases hkind

/-- Neither the lobby's instance nor one of its clients is closed. -/
theorem closed (hi : Custody s) (hp : Pre P t (.close n) s) (hrobs : ∀ r, ¬ Robs ⟨t, .close n, r, s, s'⟩) :
    n ≠ lobbyEpoll ∧ n ∉ (s.base .lobby).clients := by
  cases t with
  | lobby =>
    rcases hp with hc | ⟨hnone, c, rfl, -⟩
    · exact ⟨hi.possesses.cursor _ _ _ hc, hi.doomed n hc⟩
    · exact ⟨hi.efds c, fun hn => hrobs () ⟨_, rfl, hn, fun _ => hnone⟩⟩
  | chan d =>
    exact ⟨hi.possesses.cursor _ _ _ hp.2, fun hn => hrobs () ⟨n, rfl, hn, fun h => by cases h⟩⟩

/-- What is open stays open, the lobby's instance and its clients in particular. -/
theorem kind_step (hi : Custody s) (hp : Pre P t a s) (hrobs : ¬ Robs ⟨t, a, r, s, s'⟩)
    (hx : exec t a r s = some s') (hn : n = lobbyEpoll ∨ n ∈ (s.base .lobby).clients) :
    s'.kind n ≠ none ∧ (s.kind n = some (.epoll ∅) → s'.kind n = some (.epoll ∅)) := by
  have hopen : s.kind n ≠ none := by
    rcases hn with rfl | hn
    · simp [hi.kind]
    · exact (hi.clients n hn).2.2.1
  have hlisten : s.listenFd ≠ n := by
    rcases hn with rfl | hn
    · exact hi.listenFd
    · exact (hi.clients n hn).2.1.symm
  rcases kind_after hx hopen with h | rfl | ⟨-, h⟩ | ⟨h, -⟩
  · rw [h]
    exact ⟨hopen, id⟩
  · obtain ⟨hne, hnot⟩ := hi.closed hp fun _ => hrobs
    exact (hn.elim hne hnot).elim
  · exact absurd h hlisten
  · exact absurd h hlisten

theorem efd_step (hi : Custody s) (hx : exec t a r s = some s') : (s'.base .lobby).efd = lobbyEpoll := by
  rw [exec_efd hx]
  cases a
  case epollCreate c => cases r <;> simp [After.efd, hi.efd]
  all_goals simp [After.efd, hi.efd]

theorem efds_step (hi : Custody s) (hx : exec t a r s = some s') (c : ChId) :
    (s'.base (.chan c)).efd ≠ lobbyEpoll := by
  rw [exec_efd hx]
  have hold := hi.efds c
  cases a
  case epollCreate d =>
    cases r with
    | none => exact hold
    | some e =>
      simp only [After.efd]
      split
      · exact hi.free_ne (need_eq_some.mp hx).1.2
      · exact hold
  case newTracker | dropTracker =>
    simp only [After.efd]
    split
    · decide
    · exact hold
  all_goals exact hold

theorem listenFd_step (hi : Custody s) (hx : exec t a r s = some s') : s'.listenFd ≠ lobbyEpoll := by
  rw [exec_listenFd hx]
  cases a
  case listenSocket =>
    cases r with
    | none => exact hi.listenFd
    | some m => exact hi.free_ne (need_eq_some.mp hx).1.2
  case closeListener => exact show fdErr ≠ lobbyEpoll by decide
  all_goals exact hi.listenFd

/-- A client of the lobby was one before, or was just added. -/
theorem client_before (hx : exec t a r s = some s') (hn : n ∈ (s'.base .lobby).clients) :
    n ∈ (s.base .lobby).clients ∧ (t = .lobby → ∀ h : a = .deleteClient n, (h ▸ r : Res (.deleteClient n)) = false) ∨
      t = .lobby ∧ ∃ h : a = .addClient n, (h ▸ r : Res (.addClient n)) = .ok := by
  rw [exec_clients hx] at hn
  cases a
  case addClient m =>
    simp only [After.clients] at hn
    split at hn
    · rename_i ht
      split at hn
      · rename_i hr
        rcases Finset.mem_insert.mp hn with rfl | hn
        · exact .inr ⟨ht.symm, rfl, hr⟩
        · exact .inl ⟨hn, fun _ h => by cases h⟩
      · exact .inl ⟨hn, fun _ h => by cases h⟩
    · exact .inl ⟨hn, fun _ h => by cases h⟩
  case deleteClient m =>
    simp only [After.clients] at hn
    split at hn
    · split at hn
      · refine .inl ⟨Finset.mem_of_mem_erase hn, fun _ h => ?_⟩
        cases h
        exact absurd hn (Finset.notMem_erase _ _)
      · rename_i hr
        refine .inl ⟨hn, fun _ h => ?_⟩
        cases h
        exact Bool.eq_false_iff.mpr hr
    · rename_i ht
      exact .inl ⟨hn, fun h => absurd h.symm ht⟩
  all_goals exact .inl ⟨hn, fun _ h => by cases h⟩

theorem doomed_step (hi : Custody s) (hp : Pre P t a s) (hx : exec t a r s = some s')
    (hc : (s'.base .lobby).aux.cursor = some (n, .doomed)) : n ∉ (s'.base .lobby).clients := by
  intro hn
  have hbefore := client_before hx hn
  rw [exec_cursor hx] at hc
  have hold (hat : (s.base .lobby).aux.cursor = some (n, .doomed)) : False := by
    rcases hbefore with ⟨hin, -⟩ | ⟨rfl, rfl, -⟩
    · exact hi.doomed n hat hin
    · -- nothing is accepted while `resolve_deletion` is at work
      have hnone : (s.base .lobby).aux.cursor = none := hp.2.2
      rw [hnone] at hat
      cases hat
  cases a
  case setCursor o =>
    simp only [After.cursor] at hc
    split at hc
    · cases o <;> simp at hc
    · exact hold hc
  case deleteClient m =>
    simp only [After.cursor] at hc
    split at hc
    · rename_i ht
      split at hc
      · rename_i h
        cases hc
        rcases hbefore with ⟨-, hr⟩ | ⟨-, h, -⟩
        · have htrue : r = true := h.2.resolve_right fun h => h ht.symm
          exact Bool.noConfusion ((hr ht.symm rfl).symm.trans htrue)
        · cases h
      · exact hold hc
    · exact hold hc
  case close m =>
    simp only [After.cursor] at hc
    split at hc
    · split at hc
      · cases hc
      · exact hold hc
    · exact hold hc
  case clearBuffer m =>
    simp only [After.cursor] at hc
    split at hc
    · split at hc
      · cases hc
      · exact hold hc
    · exact hold hc
  all_goals exact hold hc

theorem clients_step (hi : Custody s) (hp : Pre P t a s) (hrobs : ¬ Robs ⟨t, a, r, s, s'⟩)
    (hx : exec t a r s = some s') (hn : n ∈ (s'.base .lobby).clients) :
    n ≠ fdErr ∧ n ≠ s'.listenFd ∧ s'.kind n ≠ none ∧ n ∈ s'.registered .lobby := by
  rw [St.registered, hi.efd_step hx]
  rcases client_before hx hn with ⟨hin, hdelete⟩ | ⟨rfl, rfl, hr⟩
  · obtain ⟨herr, hlisten, hopen, hreg⟩ := hi.clients n hin
    rw [St.registered, hi.efd] at hreg
    refine ⟨herr, ?_, (hi.kind_step hp hrobs hx (.inr hin)).1, ?_⟩
    · rw [exec_listenFd hx]
      cases a
      case listenSocket =>
        cases r with
        | none => exact hlisten
        | some m => exact ne_of_free (need_eq_some.mp hx).1.2 hopen
      case closeListener => exact herr
      all_goals exact hlisten
    · refine interest_after hx hreg (fun h => ?_) (fun h => ?_) (fun h he => ?_)
        (fun _ => ⟨hi.listenFd, hlisten.symm⟩) fun c _ => hi.efds c
      · subst h
        exact (hi.closed hp fun _ => hrobs).1 rfl
      · subst h
        exact (hi.closed hp fun _ => hrobs).2 hin
      · cases t with
        | lobby => exact hdelete rfl h
        | chan c => exact absurd he (hi.efds c)
  · have hr : r = .ok := hr
    subst hr
    obtain ⟨hrefused, -, hpossible⟩ := (need_eq_some.mp hx).1
    simp only [St.addRefused, not_or] at hrefused
    simp only [St.addImpossible, not_or] at hpossible
    have hlisten : s'.listenFd = s.listenFd := exec_listenFd hx
    have hepoll : ∃ i, s.file lobbyEpoll = some (.epoll i) := by
      have hkind := hi.kind
      rw [St.kind] at hkind
      cases hf : s.file lobbyEpoll with
      | none => simp [hf] at hkind
      | some f => cases f <;> simp_all [File.strip]
    obtain ⟨i, hf⟩ := hepoll
    refine ⟨hrefused.1, hlisten ▸ hrefused.2.2, ?_, ?_⟩
    · have hsame : s'.kind n = s.kind n := by
        rw [St.kind, exec_file hx]
        exact kind_onInterest _ _ n
      rw [hsame, Ne, kind_eq_none]
      exact hpossible.2.1
    · rw [exec_file hx]
      simp [After.file, hi.efd, hf, File.interest, File.mapInterest]

theorem step (hi : Custody s) (hp : Pre P t a s) (ha : Arguments True (· ≠ lobbyEpoll) a)
    (hrobs : ¬ Robs ⟨t, a, r, s, s'⟩) (hx : exec t a r s = some s') : Custody s' where
  possesses := by
    refine hi.possesses.step (fun n => hi.free_ne) (fun n k => hi.conn_ne) (fun v n hn he => ?_) hp ha hx
    rw [he] at hn
    exact hi.interest _ hn
  interest := by
    intro m hm
    rcases interest_before hx hm with hm | ⟨h, -⟩ | ⟨c, -, hl⟩
    · exact hi.interest m hm
    · subst h
      exact hi.possesses.added hp rfl
    · exact hi.listenFd hl.symm
  efd := hi.efd_step hx
  kind := (hi.kind_step hp hrobs hx (.inl rfl)).2 hi.kind
  efds := hi.efds_step hx
  listenFd := hi.listenFd_step hx
  doomed := fun n => hi.doomed_step hp hx
  clients := fun n => hi.clients_step hp hrobs hx

/-- The lobby's tracker can delete its clients. -/
theorem deletable (hi : Custody s) (hn : n ∈ (s.base .lobby).clients) : s.deletable .lobby n := by
  obtain ⟨herr, hlisten, -, hreg⟩ := hi.clients n hn
  refine ⟨?_, hreg⟩
  rw [St.addRefused, hi.efd]
  rintro (h | h | h)
  · exact herr h
  · exact absurd h (by decide)
  · exact hlisten h

end Custody

end

end ChatChannel
