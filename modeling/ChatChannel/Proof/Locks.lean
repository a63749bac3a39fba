import ChatChannel.Model.Script
import ChatChannel.Proof.Alphabet
import ChatChannel.Proof.Reply

/-!
# The lobby's locks

`find_or_create_channel` returns with a `pool_mtx` locked, and `on_req` and `consume_report` unlock
it by hand after calls that may throw. The history of the calls says which locks are held; on
every path of the two functions all are released at the end exactly if none of the throwing calls
failed in between.
-/

set_option autoImplicit false

namespace ChatChannel

open Conc

/-- What a call does to the set of locks the thread holds. -/
def lockStep (held : Finset ChId) : Call sig → Finset ChId
  | ⟨.lockPool c, _⟩ => insert c held
  | ⟨.unlockPool c, _⟩ => held.erase c
  | _ => held

/-- The channels whose `pool_mtx` is held after a history that began with none. -/
def heldAfter (h : Hist sig) : Finset ChId := h.foldl lockStep ∅

/-- A call of `epoll_ctl` or `send` that failed: the deletion of a client, or a part of the
channel-full reply. -/
def Fails : Call sig → Prop
  | ⟨.deleteClient _, r⟩ => r = false
  | e => Unsent channelFull e

instance : DecidablePred Fails := by
  rintro ⟨a, r⟩
  induction a using Act.casesOn
  case deleteClient n => exact inferInstanceAs (Decidable (r = false))
  case send n b =>
    exact inferInstanceAs (Decidable
      (r = none ∨ r = some 0 ∨ (b = hexHeader channelFull.length ∧ r ≠ some 4)))
  all_goals exact inferInstanceAs (Decidable False)

/-- Calls that neither lock nor fail. -/
def Quiet : Act → Prop
  | .lockPool _ | .unlockPool _ | .deleteClient _ | .send _ _ => False
  | _ => True

theorem Managing.quiet {a : Act} (ha : Managing a) : Quiet a := by
  cases a <;> first | exact trivial | exact ha.elim

/-- `held` is what the lobby holds, and nothing failed. -/
def Holds (held : Finset ChId) (h : Hist sig) : Prop := heldAfter h = held ∧ ∀ e ∈ h, ¬ Fails e

/-- A lock is held because something failed. -/
def Stuck (h : Hist sig) : Prop := heldAfter h ≠ ∅ ∧ ∃ e ∈ h, Fails e

theorem heldAfter_append (h : Hist sig) (e : Call sig) :
    heldAfter (h ++ [e]) = lockStep (heldAfter h) e := by
  simp [heldAfter, List.foldl_append]

theorem Holds.snoc {held : Finset ChId} {h : Hist sig} {e : Call sig} (hh : Holds held h)
    (he : ¬ Fails e) : Holds (lockStep held e) (h ++ [e]) := by
  refine ⟨by rw [heldAfter_append, hh.1], fun e' he' => ?_⟩
  rcases List.mem_append.mp he' with he' | he'
  · exact hh.2 e' he'
  · rw [List.mem_singleton.mp he']; exact he

theorem Holds.stuck {held : Finset ChId} {h : Hist sig} {e : Call sig} (hh : Holds held h)
    (hne : held ≠ ∅) (hl : lockStep held e = held) (he : Fails e) : Stuck (h ++ [e]) := by
  refine ⟨by rw [heldAfter_append, hh.1, hl]; exact hne, e, by simp, he⟩

theorem Holds.quiet {held : Finset ChId} (a : Act) (r : Res a) (h : Hist sig) (ha : Quiet a)
    (hh : Holds held h) : Holds held (h ++ [⟨a, r⟩]) := by
  have hl : lockStep held ⟨a, r⟩ = held := by cases a <;> first | rfl | exact ha.elim
  have hf : ¬ Fails ⟨a, r⟩ := by cases a <;> first | exact id | exact ha.elim
  rw [← hl]
  exact hh.snoc hf

/-- Nothing is held exactly if nothing failed, once one of the two is known. -/
theorem released_iff {h : Hist sig} (hh : Holds ∅ h ∨ Stuck h) :
    heldAfter h = ∅ ↔ ∀ e ∈ h, ¬ Fails e := by
  rcases hh with ⟨hl, hf⟩ | ⟨hl, e, he, hf⟩
  · exact ⟨fun _ => hf, fun _ => hl⟩
  · exact ⟨fun h0 => absurd h0 hl, fun hn => absurd hf (hn e he)⟩

/-! ## One specification for each function -/

section Specs

variable (P : Params)

/-- A function that leaves the locks alone keeps `Holds`. -/
theorem holds_quiet {α : Type} {p : Code α} (held : Finset ChId) (hp : p.All Quiet) :
    After (Holds held) p (fun _ => Holds held) (fun _ => Holds held) :=
  .keep hp fun a r h ha hh => hh.quiet a r h ha

theorem holds_managing {α : Type} {p : Code α} (held : Finset ChId) (hp : p.All Managing) :
    After (Holds held) p (fun _ => Holds held) (fun _ => Holds held) :=
  holds_quiet held (hp.mono fun _ => Managing.quiet)

/-- `join_and_logging` catches everything. -/
theorem holds_joinAndLogging (held : Finset ChId) (c : ChId) (n : Fd) (ts : Msec64) (re : Bool)
    {E : Err → Hist sig → Prop} :
    After (Holds held) (joinAndLogging c n ts re) (fun _ => Holds held) E := by
  refine .handle (E := fun _ => Holds held) (holds_quiet held ?_) fun e => .ret fun _ h => h
  refine .bind (.perform trivial) fun o => ?_
  cases o
  · trivial
  · exact (managing_join c n _).mono fun _ => Managing.quiet

theorem holds_leaveAndLogging (held : Finset ChId) (c : ChId) (n : Fd) (ts : Msec64)
    {E : Err → Hist sig → Prop} :
    After (Holds held) (leaveAndLogging c n ts) (fun _ => Holds held) E := by
  refine .handle (E := fun _ => Holds held) (holds_quiet held ?_) fun e => .ret fun _ h => h
  refine .bind (.perform trivial) fun o => ?_
  cases o <;> exact .perform trivial

theorem holds_waitStopPooling (c : ChId) {E : Err → Hist sig → Prop} :
    After (Holds ∅) (waitStopPooling c) (fun _ => Holds {c}) E := by
  refine .perform fun r h hh => ?_
  have hs := hh.snoc (e := ⟨.lockPool c, r⟩) id
  simpa [lockStep] using hs

theorem holds_startPooling (c : ChId) {E : Err → Hist sig → Prop} :
    After (Holds {c}) (startPooling c) (fun _ => Holds ∅) E := by
  refine .perform fun r h hh => ?_
  have hs := hh.snoc (e := ⟨.unlockPool c, r⟩) id
  simpa [lockStep] using hs

theorem holds_pingPool (held : Finset ChId) (c : ChId) {E : Err → Hist sig → Prop} :
    After (Holds held) (pingPool c) (fun _ => Holds held) E :=
  .perform fun r h hh => hh.quiet (.pingPool c) r h trivial

/-- The lock of a channel that was found. -/
def Found (o : Option ChId) (h : Hist sig) : Prop := Holds (o.elim ∅ fun c => {c}) h

theorem holds_tryChannel (pref c : ChId) :
    After (Holds ∅) (tryChannel P pref c) Found (fun _ => Holds ∅) := by
  unfold tryChannel
  split
  · exact .ret fun _ h => h
  · refine .bind (holds_managing ∅ (managing_getChannel P c)) fun _ =>
      .bind (holds_waitStopPooling c) fun _ => .bind (holds_pingPool {c} c) fun b => ?_
    cases b
    · exact .bind (holds_startPooling c) fun _ => .ret fun _ h => h
    · exact .ret fun _ h => h

/-- `find_or_create_channel` returns with exactly the lock of its result. -/
theorem holds_findOrCreateChannel (pref : ChId) : After (Holds ∅) (findOrCreateChannel P pref)
    (fun c => Holds {c}) (fun _ => Holds ∅) := by
  refine .bind (holds_managing ∅ (managing_getChannel P pref)) fun _ =>
    .bind (holds_waitStopPooling pref) fun _ => .bind (holds_pingPool {pref} pref) fun b => ?_
  cases b with
  | true => exact .ret fun _ h => h
  | false =>
    refine .bind (holds_startPooling pref) fun _ =>
      .bind (.perform fun r h hh => hh.quiet .channelIds r h trivial) fun ids => ?_
    have hloop : After (Holds ∅) (Prog.firstSome (tryChannel P pref) ids) Found (fun _ => Holds ∅) :=
      .firstSome (fun _ h => h) (fun c => (holds_tryChannel P pref c).conseq (fun _ h => h)
        (fun o h ho => by cases o <;> exact ho) fun _ _ h => h) ids
    refine .bind hloop fun o => ?_
    cases o with
    | some c => exact .ret fun _ h => h
    | none =>
      exact .bind (holds_managing ∅ (managing_freshId _ _)) fun newId =>
        .bind (holds_managing ∅ (managing_getChannel P newId)) fun _ =>
          .bind (holds_waitStopPooling newId) fun _ => .ret fun _ h => h

/-- How the handling of a frame or of a report may end by an exception. -/
def Raised (_ : Err) (h : Hist sig) : Prop := Holds ∅ h ∨ Stuck h

/-- `delete_client` between lock and unlock: if it throws, the lock stays. -/
theorem holds_trackerDelete (c : ChId) (n : Fd) :
    After (Holds {c}) (trackerDelete n) (fun _ => Holds {c}) Raised := by
  refine .act (V := fun r h => if r = true then Holds {c} h else Stuck h) (fun r h hh => ?_)
    fun r => ?_
  · cases r with
    | true => exact hh.snoc (e := ⟨.deleteClient n, true⟩) (by simp [Fails])
    | false => exact hh.stuck (e := ⟨.deleteClient n, false⟩) (by simp) rfl rfl
  · cases r with
    | true => exact .ret fun _ h => h
    | false => exact .raise fun _ h => .inr h

theorem holds_lobbyOnReq (n : Fd) (target : Bytes) (root : P.js.Json) :
    After (Holds ∅) (lobbyOnReq P n target root) (fun _ => Holds ∅) Raised := by
  unfold lobbyOnReq
  split
  · cases unpackLobbyJoin P.js root with
    | none => exact .ret fun _ h => h
    | some q =>
      obtain ⟨channelId, timestamp, userName⟩ := q
      refine .bind (.perform fun r h hh => hh.quiet (.setUserName n userName) r h trivial)
        fun _ => .bind (Q := fun c => Holds {c}) ?_ fun c => ?_
      · exact (holds_findOrCreateChannel P channelId).conseq (fun _ h => h) (fun _ _ h => h)
          fun _ _ h => .inl h
      · exact .bind (holds_joinAndLogging {c} c n timestamp false) fun _ =>
          .bind (holds_trackerDelete c n) fun _ =>
            .bind (.perform fun r h hh => hh.quiet (.eraseLastAct n) r h trivial) fun _ =>
              holds_startPooling c
  · exact .ret fun _ h => h

theorem holds_onFrame (n : Fd) (f : Bytes) :
    After (Holds ∅) (onFrame P .lobby n f) (fun _ => Holds ∅) Raised := by
  refine .bind (.perform fun r h hh => hh.quiet (.onFrame n f) r h trivial) fun _ => ?_
  cases requestOf P.js f with
  | none => exact .ret fun _ h => h
  | some q => exact holds_lobbyOnReq P n q.1 q.2

theorem holds_sendFrame (c : ChId) (n : Fd) :
    After (Holds {c}) (sendFrame n channelFull) (fun _ => Holds {c}) Raised := by
  refine (after_sendFrame (E := Stuck) sendable_channelFull (fun b r h hh hu => ?_)
    fun b r h hh hu => ?_).conseq (fun _ h => h) (fun _ _ h => h) fun _ _ h => .inr h
  · exact hh.snoc (e := ⟨.send n b, r⟩) hu
  · exact hh.stuck (e := ⟨.send n b, r⟩) (by simp) rfl hu

theorem holds_consumeOne (r : ChannelReport) :
    After (Holds ∅) (consumeOne P r) (fun _ => Holds ∅) Raised := by
  have hq : ∀ c, After (Holds ∅) (getChannel P c) (fun _ => Holds ∅) Raised := fun c =>
    (holds_managing ∅ (managing_getChannel P c)).conseq (fun _ h => h) (fun _ _ h => h) fun _ _ h => .inl h
  refine .bind (hq _) fun _ => .bind (hq _) fun _ => .bind (holds_waitStopPooling _) fun _ =>
    .bind (holds_pingPool _ _) fun b => ?_
  cases b with
  | true =>
    exact .bind (holds_joinAndLogging _ _ _ _ _) fun _ =>
      .bind (holds_leaveAndLogging _ _ _ _) fun _ => .bind (holds_startPooling _) fun _ =>
        .perform fun a h hh => hh.quiet (.deleteJoinReq r.ptr) a h trivial
  | false => exact .bind (holds_sendFrame _ _) fun _ => holds_startPooling _

theorem holds_consumeLoop :
    ∀ k, After (Holds ∅) (consumeLoop P k) (fun _ => Holds ∅) Raised
  | 0 => .bind (.perform fun r h hh => hh.quiet .nextReport r h trivial) fun _ =>
      .ret fun _ h => h
  | k + 1 => .bind (.perform fun r h hh => hh.quiet .nextReport r h trivial) fun o => by
      cases o with
      | none => exact .ret fun _ h => h
      | some r => exact .bind (holds_consumeOne P r) fun _ => holds_consumeLoop k

theorem holds_consumeReport :
    After (Holds ∅) (consumeReport P) (fun _ => Holds ∅) Raised := by
  refine .bind (.perform fun r h hh => hh.quiet .popReports r h trivial) fun k =>
    .handle (holds_consumeLoop P k) fun e => ?_
  refine .bind (Q := fun _ => Raised e) (.perform fun r h hh => ?_) fun _ => .raise fun _ h => h
  rcases hh with hh | ⟨hl, e', he', hf⟩
  · exact .inl (hh.quiet .dropReports r h trivial)
  · refine .inr ⟨?_, e', List.mem_append_left _ he', hf⟩
    rw [heldAfter_append]
    exact hl

end Specs

/-! ## The paths -/

theorem released_of_after {α : Type} {p : Code α} {es : Hist sig} {out : Except Err α}
    (hp : After (Holds ∅) p (fun _ => Holds ∅) Raised) (h : p.Path es out) :
    heldAfter es = ∅ ↔ ∀ e ∈ es, ¬ Fails e := by
  have h₀ : Holds ∅ ([] : Hist sig) := ⟨rfl, fun e he => absurd he (by simp)⟩
  obtain ⟨hok, herr⟩ := hp.path h₀ h
  cases out with
  | ok a => exact released_iff (.inl (hok a rfl))
  | error e => exact released_iff (herr e rfl)

/-- **The lobby releases its locks.** On every path of the dispatch of a read's frames, and on every
path of `consume_report`, no `pool_mtx` is held at the end if and only if no `epoll_ctl` that
deletes the client failed and no `send` of the channel-full reply did. -/
theorem locks_released_iff (P : Params) :
    (∀ (n : Fd) (frames : List Bytes) (es : Hist sig) (out : Except Err Unit),
      (Prog.forEach (onFrame P .lobby n) frames).Path es out →
        (heldAfter es = ∅ ↔ ∀ e ∈ es, ¬ Fails e)) ∧
    ∀ (es : Hist sig) (out : Except Err Unit), (consumeReport P).Path es out →
      (heldAfter es = ∅ ↔ ∀ e ∈ es, ¬ Fails e) := by
  constructor
  · intro n frames es out h
    exact released_of_after (.forEach (holds_onFrame P n) frames) h
  · intro es out h
    exact released_of_after (holds_consumeReport P) h

/-- A join for channel 1, without its header. -/
def joinText : Bytes := (joinFrame 1).drop 4

/-- A client is in the lobby, which has a report for channel 2; there is no room in that. -/
def knocking : St :=
  let s := (((init sample).openFile 5 (.conn 0)).openFile 7 (.conn 1)).openFile lobbyEpoll (.epoll {lobbyListener, 5})
  let s := (s.onBase .lobby fun b => { b with clients := {5} }).onBase (.chan 2) fun b =>
    { b with clients := {9}, maxFd := 1 }
  s.onLobby fun l => { l with ids := [1, 2], reports := [⟨7, 0, ⟨1, 2, 1⟩, some 0⟩] }

/-- Two joins of the client in one read, the second of which finds it gone; and the reply to the report. -/
theorem locks_released_knocking :
    (∃ es out, (Prog.forEach (onFrame sample .lobby 5) [joinText, joinText]).Path es out ∧
      ⟨.deleteClient 5, true⟩ ∈ es ∧ ⟨.deleteClient 5, false⟩ ∈ es ∧ heldAfter es ≠ ∅) ∧
    ∃ es out, (consumeReport sample).Path es out ∧ ⟨.lockPool 2, ()⟩ ∈ es ∧
      ⟨.send 7 channelFull, some channelFull.length⟩ ∈ es ∧ heldAfter es = ∅ := by
  constructor
  · obtain ⟨es, out, s', hx, hdone, hfails⟩ : ∃ es out s', (lone .lobby fun _ _ => True).Exec
        (Prog.forEach (onFrame sample .lobby 5) [joinText, joinText]) knocking es out s' ∧
        ⟨.deleteClient 5, true⟩ ∈ es ∧ ⟨.deleteClient 5, false⟩ ∈ es :=
      exists_exec (fun _ => trivial) {} (by decide +kernel)
    refine ⟨es, out, hx.path, hdone, hfails, fun hnone => ?_⟩
    exact ((locks_released_iff sample).1 5 _ es out hx.path).mp hnone _ hfails rfl
  · obtain ⟨es, out, s', hx, hlock, hsend, hfine⟩ : ∃ es out s', (lone .lobby fun _ _ => True).Exec
        (consumeReport sample) knocking es out s' ∧ ⟨.lockPool 2, ()⟩ ∈ es ∧
        ⟨.send 7 channelFull, some channelFull.length⟩ ∈ es ∧ ∀ e ∈ es, ¬ Fails e :=
      exists_exec (fun _ => trivial) {} (by decide +kernel)
    exact ⟨es, out, hx.path, hlock, hsend, ((locks_released_iff sample).2 es out hx.path).mpr hfine⟩

/-- A client sends two joins in one read. -/
def doubleJoin : List (Turn Srv Input) :=
  [tick .lobby connects, tick .lobby (sends 5 (joinFrame 1 ++ joinFrame 1))]

/-- The second join finds the client gone from the lobby's tracker: its handling ends with the
channel's lock held. -/
theorem lock_kept : ∃ tr c, (server sample).Run (init sample) tr c ∧
    ∃ e ∈ tr, e.tid = .lobby ∧ e.act = .endRecv ∧ (e.post.chan 1).mtx = some .lobby :=
  exists_run doubleJoin (by decide +kernel)

end ChatChannel
