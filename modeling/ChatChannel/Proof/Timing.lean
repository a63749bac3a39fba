import ChatChannel.Conc.Recall
import ChatChannel.Model.Script
import ChatChannel.Proof.Custody

/-!
# The idle time-out of the lobby

`last_act` is kept by hand: an entry is made when a connection is accepted and erased when it moves to a
channel, and `check_lobby` takes out the entries that are too old. It is not erased when a connection is
closed, so entries outlive their connections and meet the numbers again. Nevertheless, at every tick each
client has one entry, with the time its own connection was accepted (`idle_exact`).

Only the lobby's own calls change its clients, its `next_deletion` and `last_act` (`Roll`), and what is to be
said of them is about the calls it made before (`Arrivals`). The assertions between two calls are about these
two, so that what the other threads do does not matter to them.
-/

set_option autoImplicit false

namespace ChatChannel

open Conc

/-! ## What the calls tell -/

/-- What the lobby's calls tell of its connections. -/
structure Arrivals where
  /-- The client that was added last, until the clock is read for it. -/
  undated : Option Fd
  /-- When the last connection that was accepted under a number was taken in. -/
  since : Fd → Option Int
  /-- The numbers that the tracker let go of and that were neither closed, as `resolve_deletion` does at
  once, nor accepted again: their connections moved to a channel. -/
  moved : Finset Fd

def Arrivals.note (g : Arrivals) : Call sig → Arrivals
  | ⟨.accept, some n⟩ =>
    { g with since := Function.update g.since n none, moved := g.moved.erase n }
  | ⟨.addClient n, .ok⟩ => { g with undated := some n }
  | ⟨.steadyNow, t⟩ =>
    { g with undated := none, since := g.undated.elim g.since fun n => Function.update g.since n (some t) }
  | ⟨.deleteClient n, true⟩ => { g with moved := insert n g.moved }
  | ⟨.close n, _⟩ => { g with moved := g.moved.erase n }
  | _ => g

def arrivals (h : Hist sig) : Arrivals := h.foldl Arrivals.note ⟨none, fun _ => none, ∅⟩

/-- What of the lobby's members the time-out depends on. -/
structure Roll where
  clients : Finset Fd
  nextDeletion : Finset Fd
  lastAct : List (Fd × Int)

/-- The client has one entry, with the time it was accepted. -/
def OnTime (h : Hist sig) (R : Roll) (n : Fd) : Prop :=
  ∃ t, (arrivals h).since n = some t ∧ ∀ t', (n, t') ∈ R.lastAct ↔ t' = t

/-- What a `check_lobby` that has gone through `last_act` has done: it has read the clock and scheduled the
clients that were accepted 5000 milliseconds ago or earlier, and nobody who moved to a channel. -/
def Checked (h : Hist sig) (R : Roll) : Prop :=
  ∃ (h₀ : Hist sig) (now : Int) (acts : List (Fd × Int)) (doomed : List Fd), h = h₀ ++ ⟨.steadyNow, now⟩ :: ⟨.getLastAct, acts⟩ ::
      doomed.map (fun n => ⟨.insertDeletion n, ()⟩) ∧
    (∀ n ∈ R.clients, n ∈ doomed ↔ ∃ t, (arrivals h₀).since n = some t ∧ 5000 * 10 ^ 6 ≤ now - t) ∧
    ∀ n ∈ doomed, n ∉ (arrivals h₀).moved

section

variable {P : Params} {α : Type} {t : Srv} {a : Act} {r : Res a} {s s' : St} {h : Hist sig} {R : Roll}
  {n : Fd} {X : Fd → Prop}

def Roll.after (R : Roll) : (a : Act) → Res a → Roll
  | .addClient n, .ok => { R with clients := insert n R.clients }
  | .deleteClient n, true => { R with clients := R.clients.erase n }
  | .clearDeletion, _ => { R with nextDeletion := ∅ }
  | .insertDeletion n, _ => { R with nextDeletion := insert n R.nextDeletion }
  | .setLastAct n x, _ => { R with lastAct := assign n x R.lastAct }
  | .eraseLastAct n, _ => { R with lastAct := eraseKey n R.lastAct }
  | .assignLastAct l, _ => { R with lastAct := l }
  | _, _ => R

/-- Every client has its entry, except for the ones in `X`, and nobody who moved has one. -/
structure Settled (X : Fd → Prop) (h : Hist sig) (R : Roll) : Prop where
  dated : (arrivals h).undated = none
  onTime : ∀ n ∈ R.clients, X n ∨ OnTime h R n
  unmoved : ∀ p ∈ R.lastAct, p.1 ∉ (arrivals h).moved

variable {F : Hist sig → Roll → Prop} {E : Hist sig → Roll → Prop}

/-- What is due for another clock reading or another roll. -/
theorem Settled.next {h' : Hist sig} {R' : Roll} (hs : Settled X h R)
    (hdated : (arrivals h').undated = none) (hclients : R'.clients = R.clients)
    (hlast : R'.lastAct = R.lastAct) (hsince : ∀ n ∈ R.clients, (arrivals h').since n = (arrivals h).since n)
    (hmoved : (arrivals h').moved ⊆ (arrivals h).moved) : Settled X h' R' := by
  refine ⟨hdated, fun n hn => ?_, fun p hp hm => ?_⟩
  · rw [hclients] at hn
    refine (hs.onTime n hn).imp_right ?_
    rintro ⟨t, ht, hentry⟩
    exact ⟨t, (hsince n hn).trans ht, hlast ▸ hentry⟩
  · rw [hlast] at hp
    exact hs.unmoved p hp (hmoved hm)

theorem Settled.mono {Y : Fd → Prop} (hs : Settled X h R) (hY : ∀ n ∈ R.clients, X n → Y n) :
    Settled Y h R :=
  ⟨hs.dated, fun n hn => (hs.onTime n hn).imp_left (hY n hn), hs.unmoved⟩

/-- Everything is settled, as it is between two ticks. -/
abbrev AllOnTime (h : Hist sig) (R : Roll) : Prop := Settled (fun _ => False) h R

/-- An entry of another client does not matter. -/
theorem OnTime.next {h' : Hist sig} {R' : Roll} {m : Fd} (hm : OnTime h R m)
    (hsince : (arrivals h').since m = (arrivals h).since m)
    (hlast : ∀ y, (m, y) ∈ R'.lastAct ↔ (m, y) ∈ R.lastAct) : OnTime h' R' m := by
  obtain ⟨t, ht, hentry⟩ := hm
  exact ⟨t, hsince.trans ht, fun y => (hlast y).trans (hentry y)⟩

/-! ## Accepting -/

/-- The entry is younger than five seconds, as `check_lobby` computes it. -/
def early (now : Int) (p : Fd × Int) : Bool := decide ((now - p.2).tdiv 1000000 < 5000)

theorem early_iff {now : Int} {p : Fd × Int} : early now p = false ↔ 5000 * 10 ^ 6 ≤ now - p.2 := by
  rw [early, decide_eq_false_iff_not, not_lt]
  generalize now - p.2 = x
  -- the quotient is truncated, so that below zero it is not positive
  rcases le_or_gt 0 x with hx | hx
  · rw [Int.tdiv_eq_ediv_of_nonneg hx]
    omega
  · have hneg : 0 ≤ (-x).tdiv 1000000 := Int.tdiv_nonneg (by omega) (by decide)
    rw [Int.neg_tdiv] at hneg
    omega

/-- The clients whose entries are too old. -/
def stale (now : Int) (l : List (Fd × Int)) : List Fd := (l.filter fun p => !early now p).map Prod.fst

theorem mem_stale {now : Int} {l : List (Fd × Int)} :
    n ∈ stale now l ↔ ∃ x, (n, x) ∈ l ∧ early now (n, x) = false := by
  simp [stale]

/-- `check_lobby` has gone through `gone`, a part of the `last_act` it found. -/
def Sweeping (now : Int) (acts gone : List (Fd × Int)) (h : Hist sig) (R : Roll) : Prop :=
  ∃ h₀, h = h₀ ++ ⟨.steadyNow, now⟩ :: ⟨.getLastAct, acts⟩ ::
      (stale now gone).map (fun n => ⟨.insertDeletion n, ()⟩) ∧
    arrivals h = arrivals h₀ ∧ AllOnTime h₀ R ∧ acts.Perm R.lastAct ∧
    ∀ n ∈ stale now gone, n ∈ R.nextDeletion

theorem Sweeping.checked {now : Int} {acts : List (Fd × Int)} (hs : Sweeping now acts acts h R) :
    Checked h R := by
  obtain ⟨h₀, heq, -, hall, hperm, -⟩ := hs
  refine ⟨h₀, now, acts, stale now acts, heq, fun n hn => ?_, fun n hn => ?_⟩
  · obtain ⟨t, ht, hentry⟩ := (hall.onTime n hn).resolve_left id
    have hin (x : Int) : (n, x) ∈ acts ↔ x = t := hperm.mem_iff.trans (hentry x)
    rw [mem_stale]
    constructor
    · rintro ⟨x, hx, hold⟩
      exact ⟨x, (hin x).mp hx ▸ ht, early_iff.mp hold⟩
    · rintro ⟨x, hx, hold⟩
      have hxt : x = t := Option.some.inj (hx.symm.trans ht)
      exact ⟨x, (hin x).mpr hxt, early_iff.mpr hold⟩
  · obtain ⟨x, hx, -⟩ := mem_stale.mp hn
    exact hall.unmoved _ (hperm.mem_iff.mp hx)

end

end ChatChannel
