import Mathlib.Data.List.Perm.Subperm
import ChatChannel.Model.Script
import ChatChannel.Proof.Discipline
import ChatChannel.Proof.Founding

/-!
# Where a client is placed

`find_or_create_channel` takes the pools one after the other until a channel has room, and makes a channel
when none has. `Census` is what it knows between two of its calls: which channels there are, how full each
of them is, and whose pool it holds. Every call of the search has one rule on it, and the search itself is
gone through once (`channel_placed`).
-/

set_option autoImplicit false

namespace ChatChannel

open Conc

/-- Clients a channel has and clients that wait in its pool. -/
def occupancy (c : ChId) (s : St) : Nat :=
  (s.base (.chan c)).clients.card + (s.chan c).joinPool.length

section

variable {P : Params} {c k preferred : ChId} {ids : List ChId} {seats : ChId → Nat × Int32}
  {held : Option ChId} {h : Hist sig} {s s' : St} {a : Act} {r : Res a} {m : Int32}
  {E : Err → Hist sig → St → Prop}

/-! ## What the search knows -/

/-- The channels are `ids`, each has as many clients, and may have as many, as `seats` tells, and the lobby
holds one pool or none. -/
structure Counted (ids : List ChId) (seats : ChId → Nat × Int32) (held : Option ChId) (s : St) : Prop where
  ids : s.lobby.ids = ids
  seats : ∀ c, (occupancy c s, (s.base (.chan c)).maxFd) = seats c
  held : ∀ c, (s.chan c).mtx = some .lobby ↔ held = some c

/-- No loop has used up its rounds. -/
def Unstalled (h : Hist sig) : Prop := ⟨.stall, ()⟩ ∉ h

/-- A channel that has so many clients may take another one. -/
def Roomy (p : Nat × Int32) : Prop := p.1 < asSize p.2

theorem Counted.room (hs : Counted ids seats held s) (c : ChId) : Room c s ↔ Roomy (seats c) := by
  rw [← hs.seats c]
  rfl

theorem Unstalled.snoc (hh : Unstalled h) (ha : a ≠ .stall) : Unstalled (h ++ [⟨a, r⟩]) := by
  intro hmem
  rcases List.mem_append.mp hmem with hmem | hmem
  · exact hh hmem
  · cases List.mem_singleton.mp hmem
    exact ha rfl

/-- An object that was just made, or destroyed again, is empty and takes as many clients as it took. -/
theorem Counted.emptied (hs : Counted ids seats none s) (hlobby : s'.lobby = s.lobby)
    (hclients : ∀ d, (s'.base (.chan d)).clients = if d = c then ∅ else (s.base (.chan d)).clients)
    (hpool : ∀ d, (s'.chan d).joinPool = if d = c then [] else (s.chan d).joinPool)
    (hmaxFd : ∀ d, (s'.base (.chan d)).maxFd = if d = c then m else (s.base (.chan d)).maxFd)
    (hmtx : ∀ d, (s'.chan d).mtx = if d = c then none else (s.chan d).mtx) :
    Counted ids (Function.update seats c (0, m)) none s' := by
  refine ⟨hlobby ▸ hs.ids, fun d => ?_, fun d => ?_⟩
  · rw [occupancy, hclients d, hpool d, hmaxFd d]
    by_cases hd : d = c
    · rw [if_pos hd, if_pos hd, if_pos hd, hd, Function.update_self]
      rfl
    · rw [if_neg hd, if_neg hd, if_neg hd, Function.update_of_ne hd]
      exact hs.seats d
  · rw [hmtx d]
    split
    · simp
    · exact hs.held d

theorem chan_eq_iff {c d : ChId} : Srv.chan d = .chan c ↔ d = c :=
  ⟨fun h => Srv.chan.inj h, fun h => congrArg _ h⟩

theorem Counted.newTracker (hs : Counted ids seats none s) {r : Res (.newTracker c m)}
    (hx : exec .lobby (.newTracker c m) r s = some s') :
    Counted ids (Function.update seats c (0, m)) none s' := by
  refine hs.emptied (exec_lobby hx) (fun d => ?_) (fun d => exec_joinPool hx d) (fun d => ?_)
    fun d => exec_mtx hx d
  · rw [exec_clients hx, After.clients]
    exact if_congr chan_eq_iff rfl rfl
  · rw [exec_maxFd hx, After.maxFd]
    exact if_congr chan_eq_iff rfl rfl

/-- Once it is made, what else the constructor does, and the destructor, leave it as it is. -/
theorem Counted.founding (hs : Counted ids (Function.update seats c (0, m)) none s)
    (ha : FoundingOf c m a) (hx : exec .lobby a r s = some s') :
    Counted ids (Function.update seats c (0, m)) none s' := by
  cases a
  case newTracker d k =>
    obtain ⟨rfl, rfl⟩ := ha
    have := hs.newTracker hx
    rwa [Function.update_idem] at this
  case dropTracker d =>
    obtain rfl : d = c := ha
    have hmax := congrArg Prod.snd (hs.seats d)
    rw [Function.update_self] at hmax
    have := hs.emptied (m := m) (c := d) (exec_lobby hx) (fun e => ?_) (fun e => exec_joinPool hx e) (fun e => ?_)
      fun e => exec_mtx hx e
    · rwa [Function.update_idem] at this
    · rw [exec_clients hx, After.clients]
      exact if_congr chan_eq_iff rfl rfl
    · rw [exec_maxFd hx]
      split
      · rename_i he
        rw [he]
        exact hmax
      · rfl
  all_goals
    first
      | exact ha.elim
      | exact ⟨(congrArg Lobby.ids (exec_lobby hx)).trans hs.ids, fun d => by
          rw [occupancy, exec_clients hx, exec_joinPool hx, exec_maxFd hx]
          exact hs.seats d, fun d => by
          rw [exec_mtx hx]
          exact hs.held d⟩

end

end ChatChannel
