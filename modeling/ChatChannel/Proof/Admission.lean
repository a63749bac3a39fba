import ChatChannel.Model.Script
import ChatChannel.Proof.Reply

/-!
# Accepted connections

Every server registers the shared listening socket and every server's `handle_events` accepts on it,
but only the lobby's `on_accept` does anything with the result.
-/

set_option autoImplicit false

namespace ChatChannel

open Conc

/-- On the path, the tracker took the descriptor and it got a name and a time. -/
def Admitted (n : Fd) (es : Hist sig) : Prop :=
  ⟨.addClient n, .ok⟩ ∈ es ∧ (∃ u, ⟨.setUserName n u, ()⟩ ∈ es) ∧ ∃ t, ⟨.setLastAct n t, ()⟩ ∈ es

/-- On the path, the descriptor was put into `next_deletion`. -/
def Scheduled (n : Fd) (es : Hist sig) : Prop := ⟨.insertDeletion n, ()⟩ ∈ es

/-- The path turned the client away and could not tell it. -/
def Dropped (n : Fd) (es : Hist sig) : Prop :=
  ⟨.addClient n, .full⟩ ∈ es ∧ ∃ e ∈ es, Unsent serverFull e

/-- Nothing was done for the descriptor, and no reply failed. -/
def Pending (n : Fd) (h : Hist sig) : Prop :=
  ⟨.addClient n, .ok⟩ ∉ h ∧ ¬ Scheduled n h ∧ ∀ e ∈ h, ¬ Unsent serverFull e

/-- What the lobby's `on_accept` does with a client, on every path. -/
def Decided (n : Fd) (h : Hist sig) : Prop := (Admitted n h ∨ Scheduled n h) ∧ ¬ Dropped n h

def Lost (n : Fd) (h : Hist sig) : Prop := ¬ (Admitted n h ∨ Scheduled n h) ∧ Dropped n h

theorem Pending.snoc {n : Fd} {h : Hist sig} {e : Call sig} (hp : Pending n h)
    (ha : e ≠ ⟨.addClient n, .ok⟩) (hs : e ≠ ⟨.insertDeletion n, ()⟩)
    (hu : ¬ Unsent serverFull e) : Pending n (h ++ [e]) := by
  refine ⟨fun hm => ?_, fun hm => ?_, fun e' he' => ?_⟩
  · rcases List.mem_append.mp hm with hm | hm
    · exact hp.1 hm
    · exact ha (List.mem_singleton.mp hm).symm
  · rcases List.mem_append.mp hm with hm | hm
    · exact hp.2.1 hm
    · exact hs (List.mem_singleton.mp hm).symm
  · rcases List.mem_append.mp he' with he' | he'
    · exact hp.2.2 e' he'
    · rw [List.mem_singleton.mp he']; exact hu

/-- After the last call of either branch of `on_accept` the client is admitted or scheduled. -/
theorem Pending.scheduled {n : Fd} {h : Hist sig} (hp : Pending n h) :
    Decided n (h ++ [⟨.insertDeletion n, ()⟩]) := by
  refine ⟨.inr (by simp [Scheduled]), ?_⟩
  have hu : ∀ e ∈ h ++ [⟨.insertDeletion n, ()⟩], ¬ Unsent serverFull e := by
    intro e he
    rcases List.mem_append.mp he with he | he
    · exact hp.2.2 e he
    · rw [List.mem_singleton.mp he]; exact id
  exact fun ⟨_, e, he, h'⟩ => hu e he h'

theorem after_trackerAdd (n : Fd) : After (fun h => ∃ h₀, Pending n h₀ ∧ h = h₀ ++ [⟨.addClient n, .ok⟩])
    (do
      call (.setUserName n (tempName n))
      let now ← call .steadyNow
      call (.setLastAct n now))
    (fun _ => Decided n) (fun _ _ => False) := by
  rintro _ ⟨h₀, hp, rfl⟩ u now t
  refine ⟨.inl ⟨by simp, ⟨tempName n, by simp⟩, ⟨now, by simp⟩⟩, fun ⟨_, e, he, hu⟩ => ?_⟩
  simp only [List.append_assoc, List.mem_append, List.mem_singleton] at he
  rcases he with he | rfl | rfl | rfl | rfl
  · exact hp.2.2 e he hu
  all_goals exact hu

/-- Sending the refusal: the client stays pending, or is lost. -/
theorem after_refuse (n : Fd) : After (fun h => Pending n h ∧ ⟨.addClient n, .full⟩ ∈ h)
    (sendFrame n serverFull) (fun _ => Pending n) (fun _ => Lost n) := by
  refine (after_sendFrame (E := Lost n) sendable_serverFull (fun b r h hh hu => ?_)
    fun b r h hh hu => ?_).conseq (fun _ h => h) (fun _ _ h => h.1) fun _ _ h => h
  · exact ⟨hh.1.snoc (by simp) (by simp) hu, List.mem_append_left _ hh.2⟩
  · refine ⟨?_, List.mem_append_left _ hh.2, _, by simp, hu⟩
    rintro (⟨hm, -⟩ | hm)
    · rcases List.mem_append.mp hm with hm | hm
      · exact hh.1.1 hm
      · simp at hm
    · rcases List.mem_append.mp hm with hm | hm
      · exact hh.1.2.1 hm
      · simp at hm

theorem after_lobbyOnAccept (n : Fd) :
    After (Pending n) (lobbyOnAccept n) (fun _ => Decided n) (fun _ => Lost n) := by
  have htry : After (Pending n) (trackerAdd n)
      (fun _ h => ∃ h₀, Pending n h₀ ∧ h = h₀ ++ [⟨.addClient n, .ok⟩])
      (fun e h => Pending n h ∧ (e = Err.poolFull → ⟨.addClient n, .full⟩ ∈ h)) := by
    refine .act (V := fun r h => (∃ h₀, Pending n h₀ ∧ h = h₀ ++ [⟨.addClient n, r⟩]))
      (fun r h hh => ⟨h, hh, rfl⟩) fun r => ?_
    cases r with
    | ok => exact .ret fun _ h => h
    | full =>
      refine .raise fun h hh => ?_
      obtain ⟨h₀, hp, rfl⟩ := hh
      exact ⟨hp.snoc (by simp) (by simp) id, fun _ => by simp⟩
    | failed =>
      refine .raise fun h hh => ?_
      obtain ⟨h₀, hp, rfl⟩ := hh
      exact ⟨hp.snoc (by simp) (by simp) id, fun he => by cases he⟩
  refine .handle (.bind htry fun _ => (after_trackerAdd n).conseq (fun _ h => h) (fun _ _ h => h)
    fun _ _ h => h.elim) fun e => ?_
  have hlast : After (Pending n) (call (.insertDeletion n)) (fun _ => Decided n)
      (fun _ => Lost n) := .perform fun _ _ hh => hh.scheduled
  by_cases he : e = Err.poolFull
  · subst he
    exact .bind ((after_refuse n).conseq (fun h hh => ⟨hh.1, hh.2 rfl⟩) (fun _ _ h => h)
      fun _ _ h => h) fun _ => hlast
  · rw [if_neg he]
    exact .conseq hlast (fun h hh => hh.1) (fun _ _ h => h) fun _ _ h => h

/-- **Accepted connections.** Whichever server's thread handles the listener's event: the connection
that `accept` returned ends up in the tracker, with a name and a time, or in `next_deletion`, if and only
if the thread is the lobby's and it is not the case that the tracker was full and the refusal could not be
sent. A channel's thread does nothing with the connection. -/
theorem accepted_iff (P : Params) (v : Srv) (ev : PollEv) (n : Fd) {es : Hist sig}
    {out : Except Err Unit}
    (h : (handleEvents P v ev).Path (⟨.isListener ev.fd, true⟩ :: ⟨.accept, some n⟩ :: es) out) :
    (Admitted n es ∨ Scheduled n es) ↔ (v = .lobby ∧ ¬ Dropped n es) := by
  have hp : (onAccept v n).Path es out := by
    cases h with
    | act h => cases h with
      | act h => exact h
  cases v with
  | chan c =>
    obtain ⟨rfl, -⟩ := Prog.path_ret_iff.mp hp
    refine ⟨?_, fun hl => by cases hl.1⟩
    rintro (⟨hadd, -⟩ | hins)
    · cases hadd
    · cases hins
  | lobby =>
    have h₀ : Pending n ([] : Hist sig) := ⟨by simp, by simp [Scheduled], by simp⟩
    obtain ⟨hok, herr⟩ := (after_lobbyOnAccept n).path h₀ hp
    cases out with
    | ok a =>
      have hd := hok a rfl
      exact ⟨fun _ => ⟨rfl, hd.2⟩, fun _ => hd.1⟩
    | error e =>
      have hl := herr e rfl
      exact ⟨fun ha => absurd ha hl.1, fun hd => absurd hl.2 hd.2⟩

/-- The lobby's thread takes a connection, and a channel's thread another one. -/
theorem accepted_iff_race :
    ((Admitted 7 [⟨.addClient 7, .ok⟩, ⟨.setUserName 7 (tempName 7), ()⟩, ⟨.steadyNow, 5⟩, ⟨.setLastAct 7 5, ()⟩] ∨
        Scheduled 7 [⟨.addClient 7, .ok⟩, ⟨.setUserName 7 (tempName 7), ()⟩, ⟨.steadyNow, 5⟩, ⟨.setLastAct 7 5, ()⟩]) ↔
      (Srv.lobby = .lobby ∧
        ¬ Dropped 7 [⟨.addClient 7, .ok⟩, ⟨.setUserName 7 (tempName 7), ()⟩, ⟨.steadyNow, 5⟩, ⟨.setLastAct 7 5, ()⟩])) ∧
    ((Admitted 8 [] ∨ Scheduled 8 []) ↔ (Srv.chan 1 = .lobby ∧ ¬ Dropped 8 [])) :=
  ⟨accepted_iff sample .lobby ⟨3, false, true⟩ 7 (.act (.act (.act (.act (.act (.act (.ret ()))))))),
    accepted_iff sample (.chan 1) ⟨3, false, true⟩ 8 (.act (.act (.ret ())))⟩

/-- A client settles in channel 1; a second one connects and the channel's thread wins the race. -/
def strayAccept : List (Turn Srv Input) := settles 5 1 ++ [tick (.chan 1) connects]

/-- The second connection is open, and no server's tracker was asked to take it, nor was it
scheduled for deletion. -/
theorem accepted_by_channel : ∃ tr c, (server sample).Run (init sample) tr c ∧
    c.st.file 7 = some (.conn 1) ∧
    (∃ e ∈ tr, e.tid = .chan 1 ∧ (⟨e.act, e.res⟩ : Call sig) = ⟨.accept, some 7⟩) ∧
    ∀ e ∈ tr, e.act ≠ .addClient 7 ∧ e.act ≠ .insertDeletion 7 :=
  exists_run strayAccept (by decide +kernel)

end ChatChannel
