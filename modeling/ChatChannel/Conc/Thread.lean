import ChatChannel.Conc.System
import ChatChannel.Conc.Path

/-!
# What a thread does next to what it did before

A thread's calls in a run, with their answers, are its own history (`own`). When a call is made
often depends on nothing else: a lock is taken only after the one before was given back, a loop ends
only after its flag was read. A `Contract` states this: what the history is like when a call is made,
given answers that are as expected. `Abides` is the judgment of a program against a contract, and
`Run.abides` says that every thread whose body meets its contract keeps it on every run.

`Run.along` is the induction for what a run has done so far and the state it is in. `Onward` are the
runs that go on from a configuration.
-/

set_option autoImplicit false

namespace Conc

variable {S : Sig} {α β : Type}

/-- The history a call is made after, and the answers that can come. -/
structure Contract (S : Sig) where
  before : S.Act → Hist S → Prop
  expects : (a : S.Act) → S.Res a → Prop

namespace Prog

/-- From the history `h` on, the program keeps the contract, and ends with `Q` or raises with `E`. -/
def obeys (K : Contract S) (Q : α → Hist S → Prop) (E : S.Err → Hist S → Prop) :
    Prog S α → Hist S → Prop
  | ret a, h => Q a h
  | raise e, h => E e h
  | act a k, h => K.before a h ∧ ∀ r, K.expects a r → obeys K Q E (k r) (h ++ [⟨a, r⟩])

variable {K : Contract S}

theorem obeys_mono {Q B : α → Hist S → Prop} {E D : S.Err → Hist S → Prop} {p : Prog S α}
    (hQ : ∀ a h, Q a h → B a h) (hE : ∀ e h, E e h → D e h) :
    ∀ {h : Hist S}, obeys K Q E p h → obeys K B D p h := by
  induction p with
  | ret a => exact fun h => hQ a _ h
  | raise e => exact fun h => hE e _ h
  | act a k ih => exact fun h => ⟨h.1, fun r hr => ih r (h.2 r hr)⟩

theorem obeys_bind {Q : α → Hist S → Prop} {R : β → Hist S → Prop} {E : S.Err → Hist S → Prop}
    {p : Prog S α} {f : α → Prog S β} (hf : ∀ a h, Q a h → obeys K R E (f a) h) :
    ∀ {h : Hist S}, obeys K Q E p h → obeys K R E (p.bind f) h := by
  induction p with
  | ret a => exact fun h => hf a _ h
  | raise e => exact fun h => h
  | act a k ih => exact fun h => ⟨h.1, fun r hr => ih r (h.2 r hr)⟩

theorem obeys_handle {Q : α → Hist S → Prop} {E D : S.Err → Hist S → Prop} {p : Prog S α}
    {k : S.Err → Prog S α} (hk : ∀ e h, E e h → obeys K Q D (k e) h) :
    ∀ {h : Hist S}, obeys K Q E p h → obeys K Q D (p.handle k) h := by
  induction p with
  | ret a => exact fun h => h
  | raise e => exact fun h => hk e _ h
  | act a k ih => exact fun h => ⟨h.1, fun r hr => ih r (h.2 r hr)⟩

end Prog

/-! ## The rules -/

/-- The judgment: from a history with `P` the program keeps the contract, and ends with `Q` or raises
with `E`. -/
def Abides (K : Contract S) (P : Hist S → Prop) (p : Prog S α) (Q : α → Hist S → Prop)
    (E : S.Err → Hist S → Prop) : Prop :=
  ∀ h, P h → p.obeys K Q E h

namespace Abides

variable {K : Contract S} {P A : Hist S → Prop} {Q B : α → Hist S → Prop}
  {R : β → Hist S → Prop} {E D : S.Err → Hist S → Prop}

theorem conseq {p : Prog S α} (h : Abides K A p B D) (hP : ∀ h, P h → A h)
    (hQ : ∀ a h, B a h → Q a h) (hE : ∀ e h, D e h → E e h) : Abides K P p Q E :=
  fun h₁ hp => Prog.obeys_mono hQ hE (h h₁ (hP h₁ hp))

theorem pre {p : Prog S α} (h : Abides K A p Q E) (hP : ∀ h, P h → A h) : Abides K P p Q E :=
  h.conseq hP (fun _ _ h => h) fun _ _ h => h

theorem ret {a : α} (h : ∀ h, P h → Q a h) : Abides K P (.ret a) Q E := h

theorem raise {e : S.Err} (h : ∀ h, P h → E e h) : Abides K P (.raise e : Prog S α) Q E := h

theorem act {a : S.Act} {k : S.Res a → Prog S α} {V : S.Res a → Hist S → Prop}
    (hb : ∀ h, P h → K.before a h) (h : ∀ r h, K.expects a r → P h → V r (h ++ [⟨a, r⟩]))
    (hk : ∀ r, Abides K (V r) (k r) Q E) : Abides K P (.act a k) Q E :=
  fun h₁ hP => ⟨hb h₁ hP, fun r hr => hk r _ (h r h₁ hr hP)⟩

theorem perform {a : S.Act} {Q : S.Res a → Hist S → Prop} (hb : ∀ h, P h → K.before a h)
    (h : ∀ r h, K.expects a r → P h → Q r (h ++ [⟨a, r⟩])) :
    Abides K P (Prog.perform a) Q E :=
  fun h₁ hP => ⟨hb h₁ hP, fun r hr => h r h₁ hr hP⟩

theorem bind {p : Prog S α} {f : α → Prog S β} (hp : Abides K P p Q E)
    (hf : ∀ a, Abides K (Q a) (f a) R E) : Abides K P (p.bind f) R E :=
  fun h hP => Prog.obeys_bind (fun a h' hQ => hf a h' hQ) (hp h hP)

theorem handle {p : Prog S α} {k : S.Err → Prog S α} (hp : Abides K P p Q E)
    (hk : ∀ e, Abides K (E e) (k e) Q D) : Abides K P (p.handle k) Q D :=
  fun h hP => Prog.obeys_handle (fun e h' hE => hk e h' hE) (hp h hP)

/-- A pure fact of the precondition can be assumed outside. -/
theorem pure {φ : Prop} {p : Prog S α} (h : φ → Abides K P p Q E) :
    Abides K (fun h => φ ∧ P h) p Q E :=
  fun h₁ hP => h hP.1 h₁ hP.2

/-- The loop rule with an assertion on what is left of the list. -/
theorem forEach_rest {I : List α → Hist S → Prop} {f : α → Prog S Unit}
    (hf : ∀ x xs, Abides K (I (x :: xs)) (f x) (fun _ => I xs) E) :
    ∀ xs : List α, Abides K (I xs) (Prog.forEach f xs) (fun _ => I []) E
  | [] => ret fun _ h => h
  | x :: xs => bind (hf x xs) fun _ => Abides.forEach_rest hf xs

theorem forEach {I : Hist S → Prop} {f : α → Prog S Unit}
    (hf : ∀ x, Abides K I (f x) (fun _ => I) E) (xs : List α) :
    Abides K I (Prog.forEach f xs) (fun _ => I) E :=
  forEach_rest (I := fun _ => I) (fun x _ => hf x) xs

theorem firstSome {I : Hist S → Prop} {Q : Option β → Hist S → Prop}
    {f : α → Prog S (Option β)} (hnone : ∀ h, I h → Q none h)
    (hf : ∀ x, Abides K I (f x)
      (fun o h => match o with | some b => Q (some b) h | none => I h) E) :
    ∀ xs : List α, Abides K I (Prog.firstSome f xs) Q E
  | [] => ret hnone
  | x :: xs => bind (hf x) fun o => by
      cases o with
      | none => exact Abides.firstSome hnone hf xs
      | some b => exact ret fun _ h => h

theorem forEach_mem {I : Hist S → Prop} {f : α → Prog S Unit} :
    ∀ {xs : List α}, (∀ x ∈ xs, Abides K I (f x) (fun _ => I) E) → Abides K I (Prog.forEach f xs) (fun _ => I) E
  | [], _ => ret fun _ h => h
  | x :: _, hf => bind (hf x List.mem_cons_self) fun _ => Abides.forEach_mem fun y hy => hf y (List.mem_cons_of_mem x hy)

/-- A program whose calls can be made after any history with `P`, and keep it. -/
theorem keep {H : S.Act → Prop} {p : Prog S α} (hp : p.All H)
    (hb : ∀ a h, H a → P h → K.before a h)
    (hk : ∀ a r h, H a → K.expects a r → P h → P (h ++ [⟨a, r⟩])) :
    Abides K P p (fun _ => P) (fun _ => P) := by
  induction p with
  | ret a => exact ret fun _ h => h
  | raise e => exact raise fun _ h => h
  | act a k ih =>
    exact act (fun h hP => hb a h hp.1 hP) (fun r h hr hP => hk a r h hp.1 hr hP)
      fun r => ih r (hp.2 r)

/-- What stays true when the history goes on can be kept beside the rest. -/
theorem frame {p : Prog S α} {F : Hist S → Prop} (hF : ∀ h e, F h → F (h ++ [e])) (hp : Abides K P p Q E) :
    Abides K (fun h => P h ∧ F h) p (fun a h => Q a h ∧ F h) fun e h => E e h ∧ F h := by
  intro h hP
  have hobeys := hp h hP.1
  have hkept := hP.2
  clear hp hP
  induction p generalizing h with
  | ret a => exact ⟨hobeys, hkept⟩
  | raise e => exact ⟨hobeys, hkept⟩
  | act a k ih => exact ⟨hobeys.1, fun r hr => ih r _ (hobeys.2 r hr) (hF _ _ hkept)⟩

/-- A program keeps its contract on each of its paths. -/
theorem path {p : Prog S α} (hp : Abides K P p Q E) {h es : Hist S} {out : Except S.Err α}
    (hP : P h) (hpath : p.Path es out) (hans : ∀ e ∈ es, K.expects e.1 e.2) :
    (∀ x e y, es = x ++ e :: y → K.before e.1 (h ++ x)) ∧ ∀ a, out = .ok a → Q a (h ++ es) := by
  have hobeys := hp h hP
  clear hp hP
  induction hpath generalizing h with
  | ret b =>
    refine ⟨fun x e y hs => absurd hs (by simp), fun a ha => ?_⟩
    cases ha
    rw [List.append_nil]
    exact hobeys
  | raise e => exact ⟨fun x d y hs => absurd hs (by simp), fun a ha => by cases ha⟩
  | @act a k r es out _ ih =>
    obtain ⟨hpast, hend⟩ := ih (fun e he => hans e (List.mem_cons_of_mem _ he))
      (hobeys.2 r (hans ⟨a, r⟩ (List.mem_cons_self ..)))
    refine ⟨fun x e y hs => ?_, fun b hb => by simpa [List.append_assoc] using hend b hb⟩
    cases x with
    | nil =>
      have hd := (List.cons.inj hs).1
      subst hd
      simpa using hobeys.1
    | cons d x =>
      rw [List.cons_append] at hs
      obtain ⟨hd, hes⟩ := List.cons.inj hs
      subst hd
      simpa [List.append_assoc] using hpast x e y hes

/-- What a program ends with does not depend on a contract that expects nothing. -/
theorem after {p : Prog S α} (hans : ∀ a r, K.expects a r) (h : Abides K P p Q E) :
    After P p Q E := by
  intro h₁ hP
  have hp := h h₁ hP
  clear h hP
  induction p generalizing h₁ with
  | ret a => exact hp
  | raise e => exact hp
  | act a k ih => exact fun r => ih r _ (hp.2 r (hans a r))

end Abides

namespace Sys

variable {Tid σ : Type} [DecidableEq Tid] {M : Sys S Tid σ} {s₀ : σ}

/-- The calls thread `t` made in a run. -/
def own (t : Tid) (tr : List (Event S Tid σ)) : Hist S :=
  tr.filterMap fun e => if e.tid = t then some ⟨e.act, e.res⟩ else none

@[simp] theorem own_nil (t : Tid) : own t ([] : List (Event S Tid σ)) = [] := rfl

@[simp] theorem own_append (t : Tid) (x y : List (Event S Tid σ)) :
    own t (x ++ y) = own t x ++ own t y :=
  List.filterMap_append

theorem own_snoc_self (x : List (Event S Tid σ)) (e : Event S Tid σ) :
    own e.tid (x ++ [e]) = own e.tid x ++ [⟨e.act, e.res⟩] := by
  simp [own]

theorem own_snoc_ne {t : Tid} (x : List (Event S Tid σ)) {e : Event S Tid σ} (h : e.tid ≠ t) :
    own t (x ++ [e]) = own t x := by
  simp [own, h]

theorem own_cons_self (e : Event S Tid σ) (x : List (Event S Tid σ)) :
    own e.tid (e :: x) = ⟨e.act, e.res⟩ :: own e.tid x := by
  simp [own]

/-- Every call of a thread was made at some point of the run. -/
theorem own_split {t : Tid} {tr : List (Event S Tid σ)} {z w : Hist S} {d : Call S} (h : own t tr = z ++ d :: w) :
    ∃ x e y, tr = x ++ e :: y ∧ e.tid = t ∧ own t x = z ∧ (⟨e.act, e.res⟩ : Call S) = d := by
  induction tr generalizing z with
  | nil => cases z <;> cases h
  | cons e tr ih =>
    by_cases ht : e.tid = t
    · subst ht
      rw [own_cons_self] at h
      cases z with
      | nil =>
        obtain ⟨rfl, -⟩ := List.cons.inj h
        exact ⟨[], e, tr, rfl, rfl, rfl, rfl⟩
      | cons d' z =>
        obtain ⟨rfl, htail⟩ := List.cons.inj h
        obtain ⟨x, e', y, rfl, ht, rfl, rfl⟩ := ih htail
        exact ⟨e :: x, e', y, rfl, ht, own_cons_self e x, rfl⟩
    · rw [← List.singleton_append, own_append, show own t [e] = [] by simp [own, ht], List.nil_append] at h
      obtain ⟨x, e', y, rfl, ht', rfl, rfl⟩ := ih h
      refine ⟨e :: x, e', y, rfl, ht', ?_, rfl⟩
      simp [own, ht]

/-- Every split of a longer run is one of the run before, or the last. -/
theorem split_snoc {γ : Type} {x y z : List γ} {d e : γ} (h : x ++ [d] = y ++ e :: z) :
    (z = [] ∧ y = x ∧ e = d) ∨ ∃ z', z = z' ++ [d] ∧ x = y ++ e :: z' := by
  rcases List.eq_nil_or_concat z with rfl | ⟨z', d', rfl⟩
  · have h := List.append_inj' h rfl
    exact .inl ⟨rfl, h.1.symm, by simpa using h.2.symm⟩
  · have h : x ++ [d] = (y ++ e :: z') ++ [d'] := by simpa using h
    have h := List.append_inj' h rfl
    exact .inr ⟨z', by simpa using h.2.symm, h.1⟩

/-- **Soundness.** A thread whose body keeps its contract, from its loop assertion back to it, keeps it
on every run: each of its calls is made after such a history, and what it has left to do keeps it
too. -/
theorem Run.abides {K : Tid → Contract S} {L : Tid → Hist S → Prop} (hL : ∀ t, L t [])
    (hbody : ∀ t, Abides (K t) (L t) (M.body t) (fun _ => L t) fun _ _ => False)
    {tr : List (Event S Tid σ)} {c : Config S Tid σ} (h : M.Run s₀ tr c)
    (hans : ∀ e ∈ tr, (K e.tid).expects e.act e.res) :
    (∀ t, (c.prog t).obeys (K t) (fun _ => L t) (fun _ _ => False) (own t tr)) ∧
      ∀ x e y, tr = x ++ e :: y → (K e.tid).before e.act (own e.tid x) := by
  induction h with
  | start => exact ⟨fun t => hbody t [] (hL t), fun x e y h => absurd h (by simp)⟩
  | @call tr c s' a k t r _ hp _ ih =>
    obtain ⟨hprog, hpast⟩ := ih fun e he => hans e (List.mem_append_left _ he)
    have hact : (Prog.act a k).obeys (K t) (fun _ => L t) (fun _ _ => False) (own t tr) :=
      hp ▸ hprog t
    refine ⟨fun u => ?_, fun x e y hs => ?_⟩
    · by_cases hu : u = t
      · subst hu
        have hk := hact.2 r (hans ⟨u, a, r, c.st, s'⟩ (by simp))
        rw [own_snoc_self tr ⟨u, a, r, c.st, s'⟩]
        simpa using hk
      · rw [own_snoc_ne tr (e := ⟨t, a, r, c.st, s'⟩) fun h => hu h.symm]
        simpa [Function.update_of_ne hu] using hprog u
    · rcases split_snoc hs with ⟨-, rfl, rfl⟩ | ⟨z, -, hz⟩
      · exact hact.1
      · exact hpast x e z hz
  | @again tr c t _ hp ih =>
    obtain ⟨hprog, hpast⟩ := ih hans
    refine ⟨fun u => ?_, hpast⟩
    by_cases hu : u = t
    · subst hu
      have hret : (Prog.ret () : Prog S Unit).obeys (K u) (fun _ => L u) (fun _ _ => False)
          (own u tr) := hp ▸ hprog u
      simpa using hbody u _ hret
    · simpa [Function.update_of_ne hu] using hprog u

/-- The same for one thread, which may also end by an exception. -/
theorem Run.keeps {t : Tid} {K : Contract S} {L : Hist S → Prop} {E : S.Err → Hist S → Prop} (hL : L [])
    (hbody : Abides K L (M.body t) (fun _ => L) E) {tr : List (Event S Tid σ)} {c : Config S Tid σ}
    (h : M.Run s₀ tr c) (hans : ∀ e ∈ tr, e.tid = t → K.expects e.act e.res) :
    (c.prog t).obeys K (fun _ => L) E (own t tr) ∧ ∀ z d w, own t tr = z ++ d :: w → K.before d.1 z := by
  induction h with
  | start => exact ⟨hbody [] hL, fun z d w h => by cases z <;> cases h⟩
  | @call tr c s' a k u r _ hp _ ih =>
    obtain ⟨hprog, hpast⟩ := ih fun e he => hans e (List.mem_append_left _ he)
    by_cases hu : u = t
    · subst hu
      have hact : (Prog.act a k).obeys K (fun _ => L) E (own u tr) := hp ▸ hprog
      have hk := hact.2 r (hans ⟨u, a, r, c.st, s'⟩ (by simp) rfl)
      rw [own_snoc_self tr ⟨u, a, r, c.st, s'⟩]
      refine ⟨by simpa using hk, fun z d w hs => ?_⟩
      rcases split_snoc hs with ⟨-, rfl, rfl⟩ | ⟨w', -, hz⟩
      · exact hact.1
      · exact hpast z d w' hz
    · rw [own_snoc_ne tr (e := ⟨u, a, r, c.st, s'⟩) hu]
      exact ⟨by simpa [Function.update_of_ne fun h => hu h.symm] using hprog, hpast⟩
  | @again tr c u _ hp ih =>
    obtain ⟨hprog, hpast⟩ := ih hans
    refine ⟨?_, hpast⟩
    by_cases hu : u = t
    · subst hu
      have hret : (Prog.ret () : Prog S Unit).obeys K (fun _ => L) E (own u tr) := hp ▸ hprog
      simpa using hbody _ hret
    · simpa [Function.update_of_ne fun h => hu h.symm] using hprog

/-- Induction over a run: what it has done so far, and the state it is in. -/
theorem Run.along {I : List (Event S Tid σ) → σ → Prop} (h₀ : I [] s₀)
    {tr : List (Event S Tid σ)} {c : Config S Tid σ} (h : M.Run s₀ tr c)
    (hstep : ∀ x e y, tr = x ++ e :: y → I x e.pre → I (x ++ [e]) e.post) :
    I tr c.st ∧ ∀ x e y, tr = x ++ e :: y → I x e.pre := by
  induction h with
  | start => exact ⟨h₀, fun x e y h => absurd h (by simp)⟩
  | @call tr c s' a k t r _ _ _ ih =>
    obtain ⟨hc, hpast⟩ := ih fun x e y hs => hstep x e (y ++ [⟨t, a, r, c.st, s'⟩]) (by simp [hs])
    refine ⟨hstep tr ⟨t, a, r, c.st, s'⟩ [] rfl hc, fun x e y hs => ?_⟩
    rcases split_snoc hs with ⟨-, rfl, rfl⟩ | ⟨z, -, hz⟩
    · exact hc
    · exact hpast x e z hz
  | again t _ _ ih => exact ih hstep

/-- Induction over the part of a run that comes after the event `e`. -/
theorem Run.segment {I : List (Event S Tid σ) → σ → Prop} {x y : List (Event S Tid σ)}
    {e : Event S Tid σ} {c : Config S Tid σ} (h : M.Run s₀ (x ++ e :: y) c) (h₀ : I [] e.post)
    (hstep : ∀ a d b, y = a ++ d :: b → I a d.pre → I (a ++ [d]) d.post) :
    I y c.st ∧ ∀ a d b, y = a ++ d :: b → I a d.pre := by
  have hall := h.along (I := fun z s => ∀ a, z = x ++ e :: a → I a s)
    (fun a ha => absurd ha (by simp)) fun z d b hs hi a ha => ?_
  · exact ⟨hall.1 y rfl, fun a d b hs => hall.2 (x ++ e :: a) d b (by simp [hs]) a rfl⟩
  · rcases List.eq_nil_or_concat a with rfl | ⟨a, d', rfl⟩
    · obtain ⟨rfl, hd⟩ := List.append_inj' ha rfl
      cases hd
      exact h₀
    · have ha : z ++ [d] = (x ++ e :: a) ++ [d'] := by simpa using ha
      obtain ⟨rfl, hd⟩ := List.append_inj' ha rfl
      cases hd
      have hs : x ++ e :: y = x ++ e :: (a ++ d :: b) := by simpa using hs
      rw [List.concat_eq_append]
      exact hstep a d b (List.cons.inj (List.append_cancel_left hs)).2 (hi a rfl)

/-! ## Going on from a configuration -/

variable (M)

/-- The runs that go on from `c`. -/
inductive Onward (c : Config S Tid σ) : List (Event S Tid σ) → Config S Tid σ → Prop
  | here : Onward c [] c
  | call {tr d s'} {a : S.Act} {k : S.Res a → Prog S Unit} (t : Tid) (r : S.Res a) :
      Onward c tr d → d.prog t = .act a k → M.step t a r d.st s' →
      Onward c (tr ++ [⟨t, a, r, d.st, s'⟩]) ⟨s', Function.update d.prog t (k r)⟩
  | again {tr d} (t : Tid) : Onward c tr d → d.prog t = .ret () →
      Onward c tr ⟨d.st, Function.update d.prog t (M.body t)⟩

variable {M}

theorem Onward.run {tr tr' : List (Event S Tid σ)} {c d : Config S Tid σ} (h : M.Run s₀ tr c)
    (h' : M.Onward c tr' d) : M.Run s₀ (tr ++ tr') d := by
  induction h' with
  | here => simpa using h
  | call t r _ hp hs ih =>
    rw [← List.append_assoc]
    exact .call t r ih hp hs
  | again t _ hp ih => exact .again t ih hp

end Sys

end Conc
