import Mathlib.Data.List.Induction
import ChatChannel.Conc.Thread

/-!
# Parts of the code that one call begins

Some calls are followed by a certain part of the code and by nothing else, and some calls are made nowhere but in such
a part. An `Errand` says which they are. What a thread has left of the part it is in can be read off its own history
(`left`), so an errand is a contract; what a thread that keeps it has done is told by `opens` and `reaches`.
-/

set_option autoImplicit false

namespace Conc

variable {S : Sig} {α β : Type}

namespace Prog

/-- The calls are the program's, as far as both go. -/
inductive Opens : Prog S α → Hist S → Prop
  | nil (p : Prog S α) : Opens p []
  | ret (a : α) (es : Hist S) : Opens (.ret a) es
  | raise (e : S.Err) (es : Hist S) : Opens (.raise e) es
  | act {a : S.Act} {k : S.Res a → Prog S α} {r : S.Res a} {es : Hist S} :
      Opens (k r) es → Opens (.act a k) (⟨a, r⟩ :: es)

/-- `q` is what the program has left after the calls. -/
inductive Reaches : Prog S α → Hist S → Prog S α → Prop
  | nil (p : Prog S α) : Reaches p [] p
  | act {a : S.Act} {k : S.Res a → Prog S α} {r : S.Res a} {es : Hist S} {q : Prog S α} :
      Reaches (k r) es q → Reaches (.act a k) (⟨a, r⟩ :: es) q

theorem Reaches.snoc {p : Prog S α} {es : Hist S} {a : S.Act} {k : S.Res a → Prog S α}
    (h : Reaches p es (.act a k)) (r : S.Res a) : Reaches p (es ++ [⟨a, r⟩]) (k r) := by
  generalize hq : Prog.act a k = q at h
  induction h with
  | nil p =>
    subst hq
    exact .act (.nil _)
  | act _ ih => exact .act (ih hq)

/-- The program after its next call. -/
def next [DecidableEq S.Act] : Prog S α → Call S → Prog S α
  | act a k, ⟨b, r⟩ => if h : b = a then k (h ▸ r) else act a k
  | ret a, _ => ret a
  | raise e, _ => raise e

theorem next_act [DecidableEq S.Act] (a : S.Act) (k : S.Res a → Prog S α) (r : S.Res a) :
    next (act a k) ⟨a, r⟩ = k r := dif_pos rfl

end Prog

/-- The part of the code that a call begins, and the calls that are made in such parts only. -/
structure Errand (S : Sig) where
  enter : Call S → Option (Prog S Unit)
  inside : S.Act → Prop

namespace Errand

variable [DecidableEq S.Act] (X : Errand S)

/-- What is left of the part the thread is in. -/
def left (h : Hist S) : Prog S Unit := h.foldl (fun p e => (X.enter e).getD (p.next e)) (.ret ())

/-- The thread is in none. -/
def Idle (h : Hist S) : Prop := ∀ a k, X.left h ≠ .act a k

/-- A call that is made next: that of the part, or else none that belongs into one. -/
def Allows (a : S.Act) (h : Hist S) : Prop :=
  (∀ b k, X.left h = .act b k → a = b) ∧ (X.inside a → ∃ k, X.left h = .act a k)

def contract (expects : (a : S.Act) → S.Res a → Prop) : Contract S := ⟨X.Allows, expects⟩

/-- Calls that begin nothing. -/
def Plain (a : S.Act) : Prop := ∀ r, X.enter ⟨a, r⟩ = none

variable {X} {expects : (a : S.Act) → S.Res a → Prop} {h : Hist S} {a : S.Act}

theorem left_snoc (h : Hist S) (e : Call S) : X.left (h ++ [e]) = (X.enter e).getD ((X.left h).next e) := by
  unfold left
  rw [List.foldl_append]
  rfl

theorem idle_nil : X.Idle [] := by
  intro a k hl
  cases hl

theorem Idle.allows (hi : X.Idle h) (ha : ¬ X.inside a) : X.Allows a h :=
  ⟨fun b k hl => absurd hl (hi b k), fun hin => absurd hin ha⟩

theorem Idle.snoc (hi : X.Idle h) (ha : X.Plain a) (r : S.Res a) : X.Idle (h ++ [⟨a, r⟩]) := by
  intro b k hl
  rw [left_snoc, ha r] at hl
  cases hp : X.left h with
  | ret u =>
    rw [hp] at hl
    cases hl
  | raise e =>
    rw [hp] at hl
    cases hl
  | act b' k' => exact hi b' k' hp

/-! ## The judgment -/

/-- A program of calls that have nothing to do with the errand. -/
theorem abides_outside {p : Prog S α} (hp : p.All fun a => X.Plain a ∧ ¬ X.inside a) :
    Abides (X.contract expects) X.Idle p (fun _ => X.Idle) fun _ => X.Idle :=
  .keep hp (fun _ _ ha hi => hi.allows ha.2) fun _ r _ ha _ hi => hi.snoc ha.1 r

/-- The call that begins the part `f r`. -/
theorem abides_enter {f : S.Res a → Prog S Unit} {E : S.Err → Hist S → Prop} (ha : ¬ X.inside a)
    (hf : ∀ r, X.enter ⟨a, r⟩ = some (f r)) :
    Abides (X.contract expects) X.Idle (Prog.perform a) (fun r h => X.left h = f r) E := by
  refine .perform (fun h hi => hi.allows ha) fun r h _ _ => ?_
  rw [left_snoc, hf r]
  rfl

/-- The part itself. -/
theorem abides_part {p : Prog S Unit} (hp : p.All X.Plain) :
    Abides (X.contract expects) (fun h => X.left h = p) p (fun _ => X.Idle) fun _ => X.Idle := by
  induction p with
  | ret u =>
    refine .ret fun h hl a k hact => ?_
    rw [hl] at hact
    cases hact
  | raise e =>
    refine .raise fun h hl a k hact => ?_
    rw [hl] at hact
    cases hact
  | act a k ih =>
    refine .act (V := fun r h => X.left h = k r) (fun h hl => ⟨fun b k' hb => ?_, fun _ => ⟨k, hl⟩⟩)
      (fun r h _ hl => ?_) fun r => ih r (hp.2 r)
    · rw [hl] at hb
      cases hb
      rfl
    · rw [left_snoc, hp.1 r, hl]
      exact Prog.next_act a k r

/-! ## What a history tells that keeps the contract -/

/-- Every call of the history was made when the contract allowed it. -/
def Kept (X : Errand S) (h : Hist S) : Prop := ∀ x e y, h = x ++ e :: y → X.Allows e.1 x

theorem Kept.prefix {z w : Hist S} (hb : Kept X (z ++ w)) : Kept X z := by
  intro x e y hs
  apply hb x e (y ++ w)
  rw [hs, List.append_assoc]
  rfl

/-- Behind the call that begins a part come the calls of that part. -/
theorem opens (hparts : ∀ e p, X.enter e = some p → p.All X.Plain) (hb : Kept X h) {z w : Hist S} {e : Call S} {p : Prog S Unit}
    (hs : h = z ++ e :: w) (he : X.enter e = some p) : p.Opens w := by
  have hgo : ∀ {w z : Hist S} {p : Prog S Unit}, p.All X.Plain → X.left z = p → Kept X (z ++ w) → p.Opens w := by
    intro w
    induction w with
    | nil => exact fun _ _ _ => .nil _
    | cons d w ih =>
      intro z p hp hl hb
      cases p with
      | ret u => exact .ret u _
      | raise e => exact .raise e _
      | act a k =>
        obtain ⟨b, r⟩ := d
        obtain rfl : b = a := (hb z ⟨b, r⟩ w rfl).1 a k hl
        refine .act (ih (z := z ++ [⟨b, r⟩]) (hp.2 r) ?_ ?_)
        · rw [left_snoc, hp.1 r, hl]
          exact Prog.next_act b k r
        · rw [List.append_assoc]
          exact hb
  refine hgo (z := z ++ [e]) (hparts e p he) ?_ ?_
  · rw [left_snoc, he]
    rfl
  · rw [List.append_assoc, List.singleton_append, ← hs]
    exact hb

/-- What is left was reached by the calls since its part was begun. -/
theorem reaches_of_left (hb : Kept X h) {k : S.Res a → Prog S Unit} (hl : X.left h = .act a k) :
    ∃ z e w p, h = z ++ e :: w ∧ X.enter e = some p ∧ p.Reaches w (.act a k) := by
  induction h using List.reverseRecOn generalizing a k with
  | nil => cases hl
  | append_singleton h e ih =>
    rw [left_snoc] at hl
    cases he : X.enter e with
    | some p =>
      rw [he] at hl
      obtain rfl : p = .act a k := hl
      exact ⟨h, e, [], _, rfl, he, .nil _⟩
    | none =>
      rw [he] at hl
      have hl : (X.left h).next e = .act a k := hl
      obtain ⟨b, r⟩ := e
      cases hp : X.left h with
      | ret u =>
        rw [hp] at hl
        cases hl
      | raise e =>
        rw [hp] at hl
        cases hl
      | act b' k' =>
        obtain rfl : b = b' := (hb h ⟨b, r⟩ [] rfl).1 b' k' hp
        obtain ⟨z, d, w, p, rfl, hd, hr⟩ := ih hb.prefix hp
        rw [hp, Prog.next_act] at hl
        refine ⟨z, d, w ++ [⟨b, r⟩], p, by simp, hd, ?_⟩
        rw [← hl]
        exact hr.snoc r

/-- A call that is made in parts only was made in one. -/
theorem reaches (hb : Kept X h) {z w : Hist S} {e : Call S} (hs : h = z ++ e :: w) (he : X.inside e.1) :
    ∃ y d v p k, z = y ++ d :: v ∧ X.enter d = some p ∧ p.Reaches v (.act e.1 k) := by
  subst hs
  obtain ⟨k, hl⟩ := (hb z e w rfl).2 he
  obtain ⟨y, d, v, p, hz, hd, hr⟩ := reaches_of_left hb.prefix hl
  exact ⟨y, d, v, p, k, hz, hd, hr⟩

end Errand

end Conc
