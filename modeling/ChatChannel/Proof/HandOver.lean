import ChatChannel.Conc.Thread
import ChatChannel.Model.Script
import ChatChannel.Proof.Alphabet
import ChatChannel.Proof.Runs

/-!
# From the lobby to a channel

`on_req` names the client, looks for a channel and keeps its pool locked, looks the name up again, puts
the client into `join_pool`, and takes it out of the lobby's tracker before it unlocks. The lobby's
calls since the request say how far it is (`Hand`); with the state they show that no channel has the
client before the lock is given back, and which one has it then (`Handing`).

The name can be gone when it is looked up: a channel that closes the number it had before.
-/

set_option autoImplicit false

namespace ChatChannel

open Conc

/-! ## How far the lobby is -/

/-- What `on_req` has done for the client. -/
structure Hand where
  /-- It has set the name. -/
  named : Bool
  /-- Whether it found the name when it looked it up. -/
  looked : Option Bool
  /-- The channel whose `join_pool` has the client. -/
  entered : Option ChId
  /-- The lobby's tracker does not have the client any more. -/
  gone : Bool
  /-- Nor does `last_act`. -/
  cleared : Bool
  /-- It has unlocked the pool after that. -/
  released : Bool

def handStep (w : Hand) : Call sig → Hand
  | ⟨.setUserName _ _, _⟩ => { w with named := true }
  | ⟨.getUserName _, o⟩ => { w with looked := some o.isSome }
  | ⟨.emplaceJoin c _ _, _⟩ => { w with entered := some c }
  | ⟨.deleteClient _, r⟩ => { w with gone := r }
  | ⟨.eraseLastAct _, _⟩ => { w with cleared := true }
  | ⟨.unlockPool _, _⟩ => { w with released := w.released || w.gone }
  | _ => w

def hand (h : Hist sig) : Hand := h.foldl handStep ⟨false, none, none, false, false, false⟩

theorem hand_append (h : Hist sig) (e : Call sig) : hand (h ++ [e]) = handStep (hand h) e := by
  simp [hand, List.foldl_append]

theorem hand_released {h : Hist sig} (hr : (hand h).released = true) (g : Hist sig) :
    (hand (h ++ g)).released = true := by
  induction g using List.reverseRecOn with
  | nil => simpa using hr
  | append_singleton g e ih =>
    rw [← List.append_assoc, hand_append]
    obtain ⟨a, r⟩ := e
    cases a
    case unlockPool => simp [handStep, ih]
    all_goals exact ih

/-- All of it is about the client `n`, each thing is done once, and no channel is made or destroyed
once the client is in a pool. -/
def handContract (n : Fd) : Contract sig where
  before a h := (hand h).released = false ∧
    match a with
    | .setUserName m _ => m = n ∧ (hand h).named = false ∧ (hand h).looked = none
    | .getUserName m => m = n ∧ (hand h).named = true ∧ (hand h).looked = none
    | .emplaceJoin _ m _ => m = n ∧ (hand h).entered = none
    | .deleteClient m | .eraseLastAct m => m = n
    | .newTracker _ _ | .dropTracker _ => (hand h).entered = none
    | .unlockPool _ => (hand h).entered = none ∨ (hand h).gone = true
    | .addClient _ | .setLastAct _ _ | .assignLastAct _ | .removeUserName _ => False
    | _ => True
  expects
    | .startWorker _, r => r = true
    | _, _ => True

section

variable {P : Params} {n : Fd} {a : Act} {w : Hand} {c : ChId} {E : Err → Hist sig → Prop}

/-- A call after which the lobby is exactly so far. -/
theorem hand_call {Q : Res a → Hist sig → Prop}
    (hb : ∀ h, hand h = w → (handContract n).before a h)
    (hq : ∀ r h, hand h = w → (handContract n).expects a r → hand (h ++ [⟨a, r⟩]) = handStep w ⟨a, r⟩ →
      Q r (h ++ [⟨a, r⟩])) :
    Abides (handContract n) (fun h => hand h = w) (call a) Q E :=
  .perform hb fun r h hr hs => hq r h hs hr (by rw [hand_append, hs])

/-- The client has its new name and the lobby looks for a channel. -/
def Hand.begun : Hand := ⟨true, none, none, false, false, false⟩

theorem hand_search {α : Type} {p : Code α} (hp : p.All Searching) :
    Abides (handContract n) (fun h => hand h = .begun) p (fun _ h => hand h = .begun)
      fun _ h => hand h = .begun :=
  .keep hp
    (fun a h ha hs => by
      cases a <;> simp only [handContract, hs, Hand.begun] <;> trivial)
    fun a r h ha _ hs => by
      rw [hand_append, hs]
      cases a <;> first | rfl | exact ha.elim

/-- `Channel::join`, when threads can be made. -/
theorem hand_join (m : MessageReqDto) (hw : w.entered = none) (hr : w.released = false) :
    Abides (handContract n) (fun h => hand h = w) (join c n m)
      (fun _ h => hand h = { w with entered := some c }) fun _ _ => False := by
  have hask {a : Act} (hb : ∀ h, hand h = w → (handContract n).before a h)
      (hk : ∀ r, handStep w ⟨a, r⟩ = w) : Abides (handContract n) (fun h => hand h = w) (call a)
        (fun r h => hand h = w ∧ (handContract n).expects a r) fun _ _ => False :=
    hand_call hb fun r h _ he hs => ⟨by rw [hs, hk], he⟩
  have hput : Abides (handContract n) (fun h => hand h = w) (call (.emplaceJoin c n m))
      (fun _ h => hand h = { w with entered := some c }) fun _ _ => False :=
    hand_call (fun h hs => ⟨by rw [hs, hr], rfl, by rw [hs, hw]⟩) fun _ _ _ _ hs => hs
  have hstart : Abides (handContract n) (fun h => hand h = w) (do
      unless ← call (.startWorker c) do throw Err.threadFailed
      call (.storeStop c false)
      call (.storeEmptySince c 0)
      call (.emplaceJoin c n m) : Code Unit)
      (fun _ h => hand h = { w with entered := some c }) fun _ _ => False := by
    refine .bind (hask (a := .startWorker c) (fun h hs => ⟨by rw [hs, hr], trivial⟩) fun _ => rfl)
      fun b => ?_
    cases b with
    | false => exact .raise fun h hs => Bool.noConfusion hs.2
    | true =>
      refine Abides.pre (A := fun h => hand h = w) ?_ fun h hs => hs.1
      refine .bind (hask (a := .storeStop c false) (fun h hs => ⟨by rw [hs, hr], trivial⟩) fun _ => rfl)
        fun _ => Abides.pre (A := fun h => hand h = w) ?_ fun h hs => hs.1
      exact .bind (hask (a := .storeEmptySince c 0) (fun h hs => ⟨by rw [hs, hr], trivial⟩) fun _ => rfl)
        fun _ => hput.pre fun h hs => hs.1
  refine .bind (hask (a := .loadStop c) (fun h hs => ⟨by rw [hs, hr], trivial⟩) fun _ => rfl)
    fun b => Abides.pre (A := fun h => hand h = w) ?_ fun h hs => hs.1
  cases b with
  | false => exact hput
  | true =>
    refine .bind (hask (a := .joinable c) (fun h hs => ⟨by rw [hs, hr], trivial⟩) fun _ => rfl)
      fun b => Abides.pre (A := fun h => hand h = w) ?_ fun h hs => hs.1
    cases b with
    | false => exact hstart
    | true =>
      exact .bind (hask (a := .joinWorker c) (fun h hs => ⟨by rw [hs, hr], trivial⟩) fun _ => rfl)
        fun _ => hstart.pre fun h hs => hs.1

/-- The client was put into the pool of a channel if its name was found, and into none otherwise. -/
def Hand.settled (w : Hand) : Prop :=
  (w.looked = some true ∧ ∃ c, w.entered = some c) ∨ w.looked = some false ∧ w.entered = none

/-- What is left of `on_req` after `join_and_logging`. -/
theorem hand_leave {w : Hand} (hw : w.settled) (hr : w.released = false) :
    Abides (handContract n) (fun h => hand h = w) (do
      trackerDelete n
      call (.eraseLastAct n)
      startPooling c : Code Unit)
      (fun _ h => (hand h).settled ∧ (hand h).gone = true ∧ (hand h).cleared = true)
      fun _ _ => True := by
  refine .bind (Q := fun _ h => hand h = { w with gone := true }) ?_ fun _ => ?_
  · refine .bind (hand_call (a := .deleteClient n) (Q := fun r h => hand h = { w with gone := r })
      (fun h hs => ⟨by rw [hs, hr], rfl⟩) fun _ _ _ _ hs => hs) fun r => ?_
    cases r with
    | false => exact .raise fun _ _ => trivial
    | true => exact .ret fun _ h => h
  refine .bind (Q := fun _ h => hand h = { w with gone := true, cleared := true }) ?_ fun _ => ?_
  · exact hand_call (fun h hs => ⟨by rw [hs]; exact hr, rfl⟩) fun _ _ _ _ hs => hs
  · refine hand_call (fun h hs => ⟨by rw [hs]; exact hr, .inr (by rw [hs])⟩) fun _ h _ _ hs => ?_
    rw [hs]
    exact ⟨hw, rfl, rfl⟩

theorem hand_lobbyOnReq {target : Bytes} {root : P.js.Json} (hj : isJoin target = true)
    (hu : (unpackLobbyJoin P.js root).isSome) :
    Abides (handContract n) (fun h => hand h = ⟨false, none, none, false, false, false⟩)
      (lobbyOnReq P n target root)
      (fun _ h => (hand h).settled ∧ (hand h).gone = true ∧ (hand h).cleared = true)
      fun _ _ => True := by
  obtain ⟨⟨channelId, timestamp, userName⟩, hq⟩ := Option.isSome_iff_exists.mp hu
  unfold lobbyOnReq
  rw [if_pos hj, hq]
  refine .bind (Q := fun _ h => hand h = .begun) ?_ fun _ => ?_
  · exact hand_call (fun h hs => ⟨by rw [hs], rfl, by rw [hs], by rw [hs]⟩) fun _ _ _ _ hs => hs
  refine .bind (Q := fun _ h => hand h = .begun) ?_ fun c => ?_
  · exact (hand_search (searching_findOrCreateChannel P channelId)).conseq (fun _ h => h)
      (fun _ _ h => h) fun _ _ _ => trivial
  refine .bind (Q := fun _ h => ∃ w : Hand, (w.settled ∧ w.released = false) ∧ hand h = w)
    ?_ fun _ => ?_
  · refine .handle (E := fun _ _ => False) ?_ fun _ => .ret fun _ hf => False.elim hf
    refine .bind (hand_call (a := .getUserName n)
      (Q := fun o h => hand h = { Hand.begun with looked := some o.isSome })
      (fun h hs => ⟨by rw [hs]; rfl, rfl, by rw [hs]; rfl, by rw [hs]; rfl⟩) fun _ _ _ _ hs => hs)
      fun o => ?_
    cases o with
    | none => exact .ret fun h hs => ⟨_, ⟨.inr ⟨rfl, rfl⟩, rfl⟩, hs⟩
    | some u =>
      exact (hand_join _ rfl rfl).conseq (fun _ h => h)
        (fun _ h hs => ⟨_, ⟨.inl ⟨rfl, c, rfl⟩, rfl⟩, hs⟩) fun _ _ h => h
  · intro h hh
    obtain ⟨w, ⟨hw, hr⟩, hs⟩ := hh
    exact hand_leave hw hr h hs

/-! ## The state meanwhile -/

/-- Where the client is when the lobby is so far: what the channels and their pools have, who holds the
locks, and what the lobby has. -/
structure Handing (n : Fd) (w : Hand) (clients : ChId → Finset Fd) (joining : ChId → List Fd)
    (pool : ChId → List (Fd × MessageReqDto)) (mtx : ChId → Option Srv) (lobby : Finset Fd) (act : List (Fd × Int)) :
    Prop where
  clients : ∀ d, n ∉ clients d
  joining : ∀ d, n ∉ joining d
  pooled : ∀ d, n ∈ keys (pool d) ↔ w.entered = some d
  locked : w.released = false → ∀ d, w.entered = some d → mtx d = some .lobby
  gone : w.gone = true → n ∉ lobby
  cleared : w.cleared = true → n ∉ keys act

abbrev HandingAt (n : Fd) (w : Hand) (s : St) : Prop :=
  Handing n w (fun d => (s.base (.chan d)).clients) (fun d => (s.chan d).joining)
    (fun d => (s.chan d).joinPool) (fun d => (s.chan d).mtx) (s.base .lobby).clients s.lobby.lastAct

variable {r : Res a} {s s' : St} {h : Hist sig}

/-- A call of the lobby. -/
theorem HandingAt.lobby (hi : HandingAt n (hand h) s) (hp : LobbyPre P s a)
    (hb : (handContract n).before a h) (hx : exec .lobby a r s = some s') :
    HandingAt n (hand (h ++ [⟨a, r⟩])) s' := by
  obtain ⟨hr, hb⟩ := hb
  unfold HandingAt
  simp only [hand_append, exec_clients hx, exec_joining hx, exec_joinPool hx, exec_mtx hx, exec_lobby hx]
  cases a
  case emplaceJoin c m x =>
    obtain ⟨rfl, hn⟩ := hb
    have hlock : (s.chan c).mtx = some .lobby := hp.1
    refine ⟨hi.clients, hi.joining, fun d => ?_, fun _ d hd => ?_, hi.gone, hi.cleared⟩
    · have hd := hi.pooled d
      simp only [hn, reduceCtorEq, iff_false] at hd
      simp only [After.joinPool, handStep, Option.some.injEq, eq_comm (a := c)]
      split
      · rename_i hdc
        simp [mem_keys_emplace, hdc]
      · rename_i hdc
        simp [hd, hdc]
    · cases hd
      exact hlock
  case newTracker c m | dropTracker c =>
    have hn : (hand h).entered = none := hb
    refine ⟨fun d => ?_, fun d => ?_, fun d => ?_, fun _ d hd => ?_, hi.gone, hi.cleared⟩
    · simp only [After.clients]
      split
      · simp
      · exact hi.clients d
    · simp only [After.joining]
      split
      · simp
      · exact hi.joining d
    · simp only [After.joinPool, handStep]
      split
      · simp [hn]
      · exact hi.pooled d
    · exact absurd (hn.symm.trans hd) (by simp)
  case deleteClient m =>
    have hm : m = n := hb
    refine ⟨hi.clients, hi.joining, hi.pooled, hi.locked, fun hg => ?_, hi.cleared⟩
    have hg : r = true := hg
    simp [After.clients, hg, hm]
  case eraseLastAct m =>
    have hm : m = n := hb
    refine ⟨hi.clients, hi.joining, hi.pooled, hi.locked, hi.gone, fun _ => ?_⟩
    simp [After.lobby, keys, eraseKey, hm]
  case unlockPool c =>
    refine ⟨hi.clients, hi.joining, hi.pooled, fun hg d hd => ?_, hi.gone, hi.cleared⟩
    have hg : ((hand h).released || (hand h).gone) = false := hg
    have hd : (hand h).entered = some d := hd
    have hb : (hand h).entered = none ∨ (hand h).gone = true := hb
    rw [hr, Bool.false_or] at hg
    simp [hg, hd] at hb
  case lockPool c =>
    refine ⟨hi.clients, hi.joining, hi.pooled, fun _ d hd => ?_, hi.gone, hi.cleared⟩
    simp only [After.mtx]
    split
    · rfl
    · exact hi.locked hr d hd
  case addClient | setLastAct | assignLastAct => exact hb.elim
  case takeJoinPool | takeLeavePool => exact hp.elim
  case setUserName | getUserName => exact ⟨hi.clients, hi.joining, hi.pooled, hi.locked, hi.gone, hi.cleared⟩
  case startWorker => cases r <;> exact hi
  all_goals exact hi

/-- A call of a worker. -/
theorem HandingAt.worker {d : ChId} (hi : HandingAt n w s) (hr : w.released = false)
    (hp : Pre P (.chan d) a s) (hx : exec (.chan d) a r s = some s') : HandingAt n w s' := by
  unfold HandingAt
  simp only [exec_clients hx, exec_joining hx, exec_joinPool hx, exec_mtx hx, exec_lobby hx]
  have hlock := hi.locked hr
  cases a
  case addClient m =>
    have hm : n ≠ m := fun h => hi.joining d (h ▸ hp.2.2.1)
    refine ⟨fun e => ?_, fun e => ?_, hi.pooled, hi.locked, hi.gone, hi.cleared⟩
    · simp only [After.clients]
      split
      · split
        · simpa [hm] using hi.clients e
        · exact hi.clients e
      · exact hi.clients e
    · simp only [After.joining, reduceCtorEq, if_false]
      split
      · exact fun h => hi.joining e (List.mem_of_mem_erase h)
      · exact hi.joining e
  case deleteClient m =>
    refine ⟨fun e => ?_, hi.joining, hi.pooled, hi.locked, hi.gone, hi.cleared⟩
    simp only [After.clients]
    split
    · split
      · exact fun h => hi.clients e (Finset.mem_of_mem_erase h)
      · exact hi.clients e
    · exact hi.clients e
  case takeJoinPool =>
    -- the worker would have to hold the lock
    have hfree : w.entered ≠ some d := fun h => by
      have hm : (s.chan d).mtx = some (.chan d) := hp.2.1
      rw [hlock d h] at hm
      cases hm
    have hpool : r.Perm (s.chan d).joinPool := (need_eq_some.mp hx).1
    refine ⟨hi.clients, fun e => ?_, fun e => ?_, hi.locked, hi.gone, hi.cleared⟩
    · by_cases he : e = d
      · subst he
        have hn : n ∉ keys r := by
          rw [(keys_perm hpool).mem_iff, hi.pooled e]
          exact hfree
        simpa [After.joining, own] using hn
      · simpa [After.joining, own, he] using hi.joining e
    · by_cases he : e = d
      · subst he
        simpa [After.joinPool, own] using hfree
      · simpa [After.joinPool, own, he] using hi.pooled e
  case lockPool c =>
    refine ⟨hi.clients, hi.joining, hi.pooled, fun _ e he => ?_, hi.gone, hi.cleared⟩
    simp only [After.mtx]
    split
    · rename_i hec
      have hm : (s.chan c).mtx = none := (need_eq_some.mp hx).1
      rw [← hec, hlock e he] at hm
      cases hm
    · exact hlock e he
  case unlockPool c =>
    refine ⟨hi.clients, hi.joining, hi.pooled, fun _ e he => ?_, hi.gone, hi.cleared⟩
    simp only [After.mtx]
    split
    · rename_i hec
      have hm : (s.chan c).mtx = some (.chan d) := by
        obtain ⟨-, rfl, hm, -⟩ := hp
        exact hm
      rw [← hec, hlock e he] at hm
      cases hm
    · exact hlock e he
  case newTracker | dropTracker | emplaceJoin | eraseLastAct | setLastAct | assignLastAct =>
    exact hp.2.elim
  case startWorker => exact hp.2.elim
  all_goals exact hi

/-! ## The name -/

/-- A channel removed the client's name after the lobby had set it and before it looked it up. -/
def Robbed (n : Fd) (y : List Ev) : Prop :=
  ∃ x e z, y = x ++ e :: z ∧ e.tid ≠ .lobby ∧ e.act = .removeUserName n ∧
    (hand (Sys.own .lobby x)).named = true ∧ (hand (Sys.own .lobby x)).looked = none

theorem robbed_append {y : List Ev} {e : Ev} : Robbed n (y ++ [e]) ↔
    Robbed n y ∨ e.tid ≠ .lobby ∧ e.act = .removeUserName n ∧
      (hand (Sys.own .lobby y)).named = true ∧ (hand (Sys.own .lobby y)).looked = none := by
  constructor
  · rintro ⟨x, d, z, hs, hd⟩
    rcases Sys.split_snoc hs with ⟨-, rfl, rfl⟩ | ⟨z, -, rfl⟩
    · exact .inr hd
    · exact .inl ⟨x, d, z, rfl, hd⟩
  · rintro (⟨x, d, z, rfl, hd⟩ | hd)
    · exact ⟨x, d, z ++ [e], by simp, hd⟩
    · exact ⟨y, e, [], rfl, hd⟩

/-- What the lobby finds when it looks the name up, or has found. -/
structure NamedAt (n : Fd) (w : Hand) (robbed : Prop) (s : St) : Prop where
  early : w.named = false → ¬ robbed
  kept : w.named = true → w.looked = none → ((s.names n).isSome = true ↔ ¬ robbed)
  found : ∀ b, w.looked = some b → (b = true ↔ ¬ robbed)

theorem NamedAt.lobby {robbed : Prop} (hi : NamedAt n (hand h) robbed s)
    (hb : (handContract n).before a h) (hx : exec .lobby a r s = some s') :
    NamedAt n (hand (h ++ [⟨a, r⟩])) robbed s' := by
  obtain ⟨-, hb⟩ := hb
  have hnames := exec_names hx
  rw [hand_append]
  cases a
  case setUserName m u =>
    obtain ⟨rfl, hn, hl⟩ := hb
    refine ⟨fun hf => (by cases hf), fun _ _ => ?_, fun b hb => absurd (hl.symm.trans hb) (by simp)⟩
    rw [hnames]
    simpa [After.names] using hi.early hn
  case getUserName m =>
    obtain ⟨rfl, hn, hl⟩ := hb
    have ho : r = s.names m := (need_eq_some.mp hx).1
    refine ⟨hi.early, fun _ hf => (by cases hf), fun b hb => ?_⟩
    cases hb
    rw [ho]
    exact hi.kept hn hl
  case removeUserName => exact hb.elim
  case deleteClient | emplaceJoin | eraseLastAct | unlockPool =>
    refine ⟨hi.early, fun hn hl => ?_, hi.found⟩
    rw [hnames]
    exact hi.kept hn hl
  all_goals
    refine ⟨hi.early, fun hn hl => ?_, hi.found⟩
    rw [hnames]
    exact hi.kept hn hl

theorem NamedAt.worker {d : ChId} {y : List Ev}
    (hi : NamedAt n (hand (Sys.own .lobby y)) (Robbed n y) s) (hp : Pre P (.chan d) a s)
    (hx : exec (.chan d) a r s = some s') :
    NamedAt n (hand (Sys.own .lobby y)) (Robbed n (y ++ [⟨.chan d, a, r, s, s'⟩])) s' := by
  have hnames := exec_names hx
  rw [robbed_append]
  by_cases ha : a = .removeUserName n
  · subst ha
    refine ⟨fun hn hf => ?_, fun hn hl => ?_, fun b hb => ?_⟩
    · rcases hf with hf | ⟨-, -, hn', -⟩
      · exact hi.early hn hf
      · exact absurd (hn.symm.trans hn') (by simp)
    · rw [hnames]
      simp [After.names, hn, hl]
    · simpa [hb] using hi.found b hb
  · have hsame : s'.names n = s.names n := by
      rw [hnames]
      cases a
      case removeUserName m =>
        have hm : n ≠ m := fun h => ha (by rw [h])
        simp [After.names, hm]
      case setUserName => exact hp.2.elim
      all_goals rfl
    have hrob : (Robbed n y ∨ (Srv.chan d ≠ .lobby ∧ a = .removeUserName n ∧
        (hand (Sys.own .lobby y)).named = true ∧ (hand (Sys.own .lobby y)).looked = none)) ↔
        Robbed n y := by simp [ha]
    refine ⟨fun hn => ?_, fun hn hl => ?_, fun b hb => ?_⟩
    · rw [hrob]
      exact hi.early hn
    · rw [hrob, hsame]
      exact hi.kept hn hl
    · rw [hrob]
      exact hi.found b hb

/-! ## The hand-over -/

/-- The lobby tracks the client and no channel does, nor is there an entry or a report of it. -/
structure LobbyOnly (n : Fd) (s : St) : Prop where
  tracked : n ∈ (s.base .lobby).clients
  clients : ∀ d, n ∉ (s.base (.chan d)).clients
  joins : ∀ d, n ∉ keys (s.chan d).joinPool ∧ n ∉ (s.chan d).joining
  leaves : ∀ d, n ∉ keys (s.chan d).leavePool ∧ n ∉ (s.chan d).leaving
  reports : ∀ q ∈ underWay s, q.from' ≠ n

/-- In a run, `e` is the lobby's `on_frame` for a well-formed join request of `n`, and `y` goes on until
`on_req` returns. Every thread that is asked for can be made. -/
structure JoinHandled (P : Params) (n : Fd) (x : List Ev) (e : Ev) (y : List Ev)
    (cf : Config sig Srv St) : Prop where
  run : (server P).Run (init P) (x ++ e :: y) cf
  frame : e.tid = .lobby ∧ ∃ f target root, e.act = .onFrame n f ∧
    requestOf P.js f = some (target, root) ∧ isJoin target = true ∧
      (unpackLobbyJoin P.js root).isSome ∧
        (lobbyOnReq P n target root).Path (Sys.own .lobby y) (.ok ())
  returns : ∃ z d, y = z ++ [d] ∧ d.tid = .lobby
  threads : ∀ d ∈ y, ∀ c, (⟨d.act, d.res⟩ : Call sig) ≠ ⟨.startWorker c, false⟩

/-- At no time a channel and the lobby have the client both, and in the end exactly one channel has it. -/
def HandedOver (n : Fd) (y : List Ev) (s : St) : Prop :=
  (∀ d ∈ y, ∀ c, ¬ (n ∈ (d.pre.base .lobby).clients ∧ n ∈ (d.pre.base (.chan c)).clients) ∧
    ¬ (n ∈ (d.post.base .lobby).clients ∧ n ∈ (d.post.base (.chan c)).clients)) ∧
  n ∉ (s.base .lobby).clients ∧ n ∉ keys s.lobby.lastAct ∧
  ∃! c, n ∈ keys (s.chan c).joinPool ∨ n ∈ (s.base (.chan c)).clients

variable {x y : List Ev} {e : Ev} {cf : Config sig Srv St}

theorem JoinHandled.contract (hj : JoinHandled P n x e y cf) :
    (∀ z d b, y = z ++ d :: b → d.tid = .lobby →
      (handContract n).before d.act (Sys.own .lobby z)) ∧
    (hand (Sys.own .lobby y)).settled ∧ (hand (Sys.own .lobby y)).gone = true ∧
      (hand (Sys.own .lobby y)).cleared = true := by
  obtain ⟨-, f, target, root, -, -, hjoin, hu, hpath⟩ := hj.frame
  have hans : ∀ d ∈ Sys.own .lobby y, (handContract n).expects d.1 d.2 := by
    intro d hd
    obtain ⟨g, hg, hgd⟩ := List.mem_filterMap.mp hd
    have ht := hj.threads g hg
    obtain ⟨t, a, r, s, s'⟩ := g
    split at hgd
    · rename_i hlobby
      cases hgd
      cases a
      case startWorker c =>
        cases r with
        | true => rfl
        | false => exact absurd rfl (ht c)
      all_goals trivial
    · cases hgd
  obtain ⟨hpast, hend⟩ := (hand_lobbyOnReq (n := n) hjoin hu).path (h := []) rfl hpath hans
  refine ⟨fun z d b hs hd => ?_, hend () rfl⟩
  have hown : Sys.own .lobby y = Sys.own .lobby z ++ ⟨d.act, d.res⟩ :: Sys.own .lobby b := by
    rw [hs, Sys.own_append, ← hd, Sys.own_cons_self]
  exact hpast _ ⟨d.act, d.res⟩ _ hown

/-- The pool of the channel stays locked until `on_req` returns. -/
theorem JoinHandled.held (hj : JoinHandled P n x e y cf) {z b : List Ev} {d : Ev}
    (hs : y = z ++ d :: b) : (hand (Sys.own .lobby z)).released = false := by
  obtain ⟨u, g, hu, hg⟩ := hj.returns
  have hlast := (hj.contract.1 u g [] hu hg).1
  by_contra hr
  have hr : (hand (Sys.own .lobby z)).released = true := by simpa using hr
  have hz : ∃ v, u = z ++ v := by
    rcases Sys.split_snoc (hu ▸ hs) with ⟨-, rfl, -⟩ | ⟨v, -, hv⟩
    · exact ⟨[], by simp⟩
    · exact ⟨d :: v, hv⟩
  obtain ⟨v, rfl⟩ := hz
  rw [Sys.own_append, hand_released hr] at hlast
  cases hlast

theorem JoinHandled.handing (hj : JoinHandled P n x e y cf) (hs : LobbyOnly n e.post) :
    (∀ d ∈ y, ∀ c, n ∉ (d.pre.base (.chan c)).clients ∧ n ∉ (d.post.base (.chan c)).clients) ∧
      HandingAt n (hand (Sys.own .lobby y)) cf.st ∧
        NamedAt n (hand (Sys.own .lobby y)) (Robbed n y) cf.st := by
  have h₀ : HandingAt n (hand []) e.post ∧ NamedAt n (hand []) (Robbed n []) e.post := by
    constructor
    · exact ⟨hs.clients, fun d => (hs.joins d).2, fun d => by simpa [hand] using (hs.joins d).1,
        by simp [hand], by simp [hand], by simp [hand]⟩
    · exact ⟨fun _ => by rintro ⟨x, e, z, hx, -⟩; exact absurd hx (by simp), by simp [hand],
        by simp [hand]⟩
  have hstep : ∀ z d b, y = z ++ d :: b →
      (HandingAt n (hand (Sys.own .lobby z)) d.pre ∧
        NamedAt n (hand (Sys.own .lobby z)) (Robbed n z) d.pre) →
      HandingAt n (hand (Sys.own .lobby (z ++ [d]))) d.post ∧
        NamedAt n (hand (Sys.own .lobby (z ++ [d]))) (Robbed n (z ++ [d])) d.post := by
    rintro z d b hz ⟨hh, hn⟩
    obtain ⟨-, hp, hx⟩ := legal hj.run d (by simp [hz])
    have hheld := hj.held hz
    have hcon := hj.contract.1 z d b hz
    obtain ⟨t, a, r, s, s'⟩ := d
    cases t with
    | lobby =>
      rw [Sys.own_snoc_self z ⟨.lobby, a, r, s, s'⟩]
      refine ⟨hh.lobby hp (hcon rfl) hx, ?_⟩
      have hrob : Robbed n (z ++ [⟨.lobby, a, r, s, s'⟩]) ↔ Robbed n z := by simp [robbed_append]
      rw [hrob]
      exact hn.lobby (hcon rfl) hx
    | chan c =>
      rw [Sys.own_snoc_ne z (by simp)]
      exact ⟨hh.worker hheld hp hx, hn.worker hp hx⟩
  have hall := hj.run.segment (I := fun z s => HandingAt n (hand (Sys.own .lobby z)) s ∧
    NamedAt n (hand (Sys.own .lobby z)) (Robbed n z) s) h₀ hstep
  refine ⟨fun d hd c => ?_, hall.1⟩
  obtain ⟨z, b, hz⟩ := List.append_of_mem hd
  have hpre := hall.2 z d b hz
  exact ⟨hpre.1.clients c, (hstep z d b hz hpre).1.clients c⟩

/-- **The hand-over to a channel.** From every state in which the lobby alone has the client, whatever the
workers do meanwhile: the client is in the lobby or in a channel but never in both, and in exactly one channel
when `on_req` returns, if and only if no channel removes its name before the lobby has looked it up. -/
theorem handed_over_iff (hj : JoinHandled P n x e y cf) (hs : LobbyOnly n e.post) :
    HandedOver n y cf.st ↔ ¬ Robbed n y := by
  obtain ⟨hnever, hh, hn⟩ := hj.handing hs
  obtain ⟨-, hset, hgone, hclear⟩ := hj.contract
  rcases hset with ⟨hl, c, hc⟩ | ⟨hl, hc⟩
  · refine iff_of_true ?_ ((hn.found true hl).mp rfl)
    refine ⟨fun d hd c => ⟨fun h => (hnever d hd c).1 h.2, fun h => (hnever d hd c).2 h.2⟩,
      hh.gone hgone, hh.cleared hclear, c, .inl ((hh.pooled c).mpr hc), fun d hd => ?_⟩
    rcases hd with hd | hd
    · have hd := (hh.pooled d).mp hd
      rw [hc] at hd
      exact (Option.some.inj hd).symm
    · exact absurd hd (hh.clients d)
  · refine iff_of_false (fun ho => ?_) fun hr => Bool.noConfusion ((hn.found false hl).mpr hr)
    obtain ⟨d, hd, -⟩ := ho.2.2.2
    rcases hd with hd | hd
    · have hd := (hh.pooled d).mp hd
      rw [hc] at hd
      cases hd
    · exact hh.clients d hd

end

/-! ## Two runs -/

/-- Whether the lobby's `on_frame` at `e` is for a join request of `n` that it serves in `y`. -/
def served (P : Params) (n : Fd) (e : Ev) (y : List Ev) : Bool :=
  match e.act with
  | .onFrame m f => decide (e.tid = .lobby ∧ m = n) && (requestOf P.js f).any fun q =>
      isJoin q.1 && (unpackLobbyJoin P.js q.2).isSome &&
        ((lobbyOnReq P n q.1 q.2).replay (Sys.own .lobby y)).any Except.isOk
  | _ => false

def spawned : Ev → Bool
  | ⟨_, .startWorker _, false, _, _⟩ => false
  | _ => true

/-- Only the lobby has `n`, as far as the channels `ids` go. -/
def alone (n : Fd) (ids : List ChId) (s : St) : Bool :=
  decide (s.lobby.ids = ids ∧ n ∈ (s.base .lobby).clients ∧ ∀ q ∈ underWay s, q.from' ≠ n) &&
    ids.all fun c => n ∉ (s.base (.chan c)).clients ∧
      (n ∉ keys (s.chan c).joinPool ∧ n ∉ (s.chan c).joining) ∧
        n ∉ keys (s.chan c).leavePool ∧ n ∉ (s.chan c).leaving

/-- The request of `n` is the `k`th event of the run, and served to the end of it. -/
def ready (P : Params) (n : Fd) (k : Nat) (ids : List ChId) (tr : List Ev) : Bool :=
  match tr.drop k with
  | [] => false
  | e :: y => served P n e y && y.all spawned && (y.getLast?.any fun d => decide (d.tid = .lobby)) &&
      alone n ids e.post

variable {P : Params} {n : Fd} {k : Nat} {ids : List ChId} {tr x y : List Ev} {e : Ev}
  {cf : Config sig Srv St}

theorem JoinHandled.of_served (hr : (server P).Run (init P) (x ++ e :: y) cf)
    (hs : served P n e y = true) (hth : y.all spawned = true)
    (hd : (y.getLast?.any fun d => decide (d.tid = .lobby)) = true) : JoinHandled P n x e y cf := by
  refine ⟨hr, ?_, ?_, fun g hg c hc => ?_⟩
  · unfold served at hs
    split at hs
    · rename_i m f he
      simp only [Bool.and_eq_true, decide_eq_true_eq, Option.any_eq_true, Prod.exists] at hs
      obtain ⟨⟨ht, rfl⟩, target, root, hq, ⟨hj, hu⟩, out, hp, hok⟩ := hs
      refine ⟨ht, f, target, root, he, hq, hj, hu, ?_⟩
      cases out with
      | ok u => exact Prog.path_of_replay hp
      | error => cases hok
    · cases hs
  · rcases List.eq_nil_or_concat y with rfl | ⟨z, d, rfl⟩
    · cases hd
    · exact ⟨z, d, by simp, by simpa using hd⟩
  · have hg := List.all_eq_true.mp hth g hg
    obtain ⟨t, a, r, s, s'⟩ := g
    cases hc
    cases hg

theorem LobbyOnly.of_alone {s : St} (hw : Wf s) (hc : Confined (.lobby :: ids.map .chan) s)
    (ha : alone n ids s = true) : LobbyOnly n s := by
  simp only [alone, Bool.and_eq_true, decide_eq_true_eq, List.all_eq_true] at ha
  obtain ⟨⟨rfl, ht, hq⟩, hout⟩ := ha
  have hin : ∀ c, .chan c ∈ Srv.lobby :: s.lobby.ids.map .chan → c ∈ s.lobby.ids := by simp
  have hall : ∀ c, n ∉ (s.base (.chan c)).clients ∧
      (n ∉ keys (s.chan c).joinPool ∧ n ∉ (s.chan c).joining) ∧
        n ∉ keys (s.chan c).leavePool ∧ n ∉ (s.chan c).leaving := by
    intro c
    by_cases hmap : c ∈ s.lobby.ids
    · exact hout c hmap
    · have hvac := hw.vacant c hmap
      have hmtx : (s.chan c).mtx ≠ some (.chan c) := fun hm => hmap (hin c (hc.holder c _ hm))
      have hleave : (s.chan c).leavePool = [] := by
        by_contra hne
        exact hmap (hin c (hc.leavePool c hne))
      simp [hvac.clients, hvac.joinPool, hvac.joining, hleave, (hw.unlocked c hmtx).2]
  exact ⟨ht, fun c => (hall c).1, fun c => (hall c).2.1, fun c => (hall c).2.2, hq⟩

theorem handled_of_ready (hr : (server P).Run (init P) tr cf) (h : ready P n k ids tr = true)
    (hw : ∀ e ∈ tr, Within (.lobby :: ids.map .chan) e) :
    ∃ x e, JoinHandled P n x e (tr.drop (k + 1)) cf ∧ LobbyOnly n e.post := by
  unfold ready at h
  split at h
  · cases h
  · rename_i e y hdrop
    simp only [Bool.and_eq_true] at h
    obtain ⟨⟨⟨hs, hth⟩, hd⟩, ha⟩ := h
    have htr : tr = tr.take k ++ e :: y := by rw [← hdrop, List.take_append_drop]
    have hy : tr.drop (k + 1) = y := by
      rw [← List.drop_drop, hdrop]
      rfl
    have hmem : e ∈ tr := by
      rw [htr]
      simp
    have hl := legal hr e hmem
    have hj : JoinHandled P n (tr.take k) e y cf := .of_served (htr ▸ hr) hs hth hd
    exact ⟨tr.take k, e, hy ▸ hj,
      .of_alone (hl.wf.step hl.pre hl.exec) ((confined hr hw).2 e hmem) ha⟩

/-- A client connects and joins channel 1, where another one is already, and whose worker begins a tick
meanwhile. -/
def joins : List (Turn Srv Input) :=
  settles 5 1 ++ [tick .lobby connects, ⟨.lobby, 16, sends 7 (joinFrame 1)⟩, ⟨.chan 1, 6, {}⟩,
    ⟨.lobby, 5, {}⟩]

/-- Client 5 moves from channel 1 to channel 2 and hangs up, which both channels see. Channel 1 lets go of it,
channel 2 closes it, and the next client gets the number. While the lobby serves its request, channel 1
comes to close what is not its own any more. -/
def robs : List (Turn Srv Input) :=
  settles 5 1 ++ [tick (.chan 1) (sends 5 (switchFrame 2)), tick .lobby {}, tick (.chan 2) {},
    ⟨.chan 1, 27, hangsUp 5⟩, tick (.chan 2) (hangsUp 5), tick .lobby connects,
    ⟨.lobby, 30, sends 5 (joinFrame 3)⟩, ⟨.chan 1, 3, {}⟩, ⟨.lobby, 4, {}⟩]

theorem handed_over_iff_joins : ∃ x e y cf, JoinHandled sample 7 x e y cf ∧ LobbyOnly 7 e.post ∧
    (∃ d ∈ y, d.tid = .chan 1) ∧ HandedOver 7 y cf.st := by
  obtain ⟨tr, cf, hr, hready, hw, hmeanwhile, hkeep⟩ := exists_run (P := sample)
    (p := fun tr cf => ready sample 7 110 [1] tr = true ∧
      (∀ e ∈ tr, Within [.lobby, .chan 1] e) ∧ (∃ d ∈ tr.drop 111, d.tid = .chan 1) ∧
        ∀ d ∈ tr.drop 111, d.act ≠ .removeUserName 7) joins (by decide +kernel)
  obtain ⟨x, e, hj, hs⟩ := handled_of_ready hr hready hw
  refine ⟨x, e, _, cf, hj, hs, hmeanwhile, (handed_over_iff hj hs).mpr fun hrob => ?_⟩
  obtain ⟨a, d, b, hd, -, hact, -⟩ := hrob
  exact hkeep d (by simp [hd]) hact

/-- The client is in no server any more when `on_req` returns, and its connection was open all the time. -/
theorem handed_to_nobody : ∃ x e y cf, JoinHandled sample 5 x e y cf ∧ LobbyOnly 5 e.post ∧
    (∀ d ∈ y, d.post.file 5 = some (.conn 1)) ∧ ¬ HandedOver 5 y cf.st := by
  obtain ⟨tr, cf, hr, hready, hw, hopen, hout⟩ := exists_run (P := sample)
    (p := fun tr cf => ready sample 5 253 [1, 2] tr = true ∧
      (∀ e ∈ tr, Within [.lobby, .chan 1, .chan 2] e) ∧
        (∀ d ∈ tr.drop 254, d.post.file 5 = some (.conn 1)) ∧
          cf.st.lobby.ids.all (fun c => 5 ∉ keys (cf.st.chan c).joinPool ∧
            5 ∉ (cf.st.base (.chan c)).clients) = true) robs (by decide +kernel)
  simp only [List.all_eq_true, decide_eq_true_eq] at hout
  obtain ⟨x, e, hj, hs⟩ := handled_of_ready hr hready hw
  refine ⟨x, e, _, cf, hj, hs, hopen, fun ho => ?_⟩
  obtain ⟨c, hc, -⟩ := ho.2.2.2
  by_cases hin : c ∈ cf.st.lobby.ids
  · exact hc.elim (hout c hin).1 (hout c hin).2
  · have hvac := (server_verified hr).inv.vacant c hin
    simp [hvac.joinPool, hvac.clients] at hc

end ChatChannel
