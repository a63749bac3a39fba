import ChatChannel.Conc.Path
import ChatChannel.Conc.System

/-!
# One program from a given state

`Exec p s es out s'` says that a thread runs `p` from `s`, making the calls `es`, and ends with `out` in
`s'`, while other threads may change the state between two of its calls as `rely` allows. Unlike a path
it has a state, and unlike a run it begins anywhere, with an arbitrary state that no run need reach.

Executions are reasoned about with a Hoare logic whose assertions speak about the calls made so far and
the state at once; an assertion has to be stable under `rely` only where a call follows. `execute`
evaluates one execution without interference.
-/

set_option autoImplicit false

namespace Conc

variable {S : Sig} {σ α β : Type}

/-- A thread on its own: what its calls do, and what may happen between two of them. -/
structure Solo (S : Sig) (σ : Type) where
  step : (a : S.Act) → S.Res a → σ → σ → Prop
  rely : σ → σ → Prop

namespace Solo

variable (W : Solo S σ)

inductive Exec : Prog S α → σ → Hist S → Except S.Err α → σ → Prop
  | ret (a : α) (s : σ) : Exec (.ret a) s [] (.ok a) s
  | raise (e : S.Err) (s : σ) : Exec (.raise e) s [] (.error e) s
  | act {a : S.Act} {k : S.Res a → Prog S α} {r : S.Res a} {s s₁ s₂ s' : σ} {es : Hist S}
      {out : Except S.Err α} : W.rely s s₁ → W.step a r s₁ s₂ → Exec (k r) s₂ es out s' →
      Exec (.act a k) s (⟨a, r⟩ :: es) out s'

variable {W}

theorem Exec.path {p : Prog S α} {s s' : σ} {es : Hist S} {out : Except S.Err α}
    (h : W.Exec p s es out s') : p.Path es out := by
  induction h with
  | ret a => exact .ret a
  | raise e => exact .raise e
  | act _ _ _ ih => exact .act ih

theorem Exec.bind {p : Prog S α} {f : α → Prog S β} {s s₁ s' : σ} {es es' : Hist S} {a : α}
    {out : Except S.Err β} (hp : W.Exec p s es (.ok a) s₁) (hf : W.Exec (f a) s₁ es' out s') :
    W.Exec (p.bind f) s (es ++ es') out s' := by
  generalize ho : (Except.ok a : Except S.Err α) = o at hp
  induction hp with
  | ret b =>
    cases ho
    exact hf
  | raise => cases ho
  | act hr hs _ ih => exact .act hr hs (ih hf ho)

/-- An execution of one thread is one of another that can do the same with what happens to it. -/
theorem Exec.imp {V : Solo S σ} (hV : ∀ a r s s₁ s₂, W.rely s s₁ → W.step a r s₁ s₂ →
    ∃ s', V.rely s s' ∧ V.step a r s' s₂) {p : Prog S α} {s s' : σ} {es : Hist S}
    {out : Except S.Err α} (h : W.Exec p s es out s') : V.Exec p s es out s' := by
  induction h with
  | ret a s => exact .ret a s
  | raise e s => exact .raise e s
  | act hr hs _ ih =>
    obtain ⟨s', hr', hs'⟩ := hV _ _ _ _ _ hr hs
    exact .act hr' hs' ih

/-- An execution of a sequence is one of its first part that raises, or goes on in the second. -/
theorem Exec.of_bind {p : Prog S α} {f : α → Prog S β} {s s' : σ} {es : Hist S} {out : Except S.Err β}
    (h : W.Exec (p.bind f) s es out s') :
    (∃ es₁ a s₁ es₂, es = es₁ ++ es₂ ∧ W.Exec p s es₁ (.ok a) s₁ ∧ W.Exec (f a) s₁ es₂ out s') ∨
      ∃ e, out = .error e ∧ W.Exec p s es (.error e) s' := by
  induction p generalizing s es with
  | ret a => exact .inl ⟨[], a, s, es, rfl, .ret a s, h⟩
  | raise e =>
    cases h
    exact .inr ⟨e, rfl, .raise e s'⟩
  | act a k ih =>
    cases h with
    | act hr hs hx =>
      rcases ih _ hx with ⟨es₁, b, s₁, es₂, rfl, h₁, h₂⟩ | ⟨e, rfl, he⟩
      · exact .inl ⟨_ :: es₁, b, s₁, es₂, rfl, .act hr hs h₁, h₂⟩
      · exact .inr ⟨e, rfl, .act hr hs he⟩

/-- An execution under a handler returns, or raises and goes on in the handler. -/
theorem Exec.of_handle {p : Prog S α} {k : S.Err → Prog S α} {s s' : σ} {es : Hist S}
    {out : Except S.Err α} (h : W.Exec (p.handle k) s es out s') :
    (∃ a, out = .ok a ∧ W.Exec p s es (.ok a) s') ∨
      ∃ es₁ e s₁ es₂, es = es₁ ++ es₂ ∧ W.Exec p s es₁ (.error e) s₁ ∧ W.Exec (k e) s₁ es₂ out s' := by
  induction p generalizing s es with
  | ret a =>
    cases h
    exact .inl ⟨a, rfl, .ret a s'⟩
  | raise e => exact .inr ⟨[], e, s, es, rfl, .raise e s, h⟩
  | act a f ih =>
    cases h with
    | act hr hs hx =>
      rcases ih _ hx with ⟨b, rfl, hb⟩ | ⟨es₁, e, s₁, es₂, rfl, h₁, h₂⟩
      · exact .inl ⟨b, rfl, .act hr hs hb⟩
      · exact .inr ⟨_ :: es₁, e, s₁, es₂, rfl, .act hr hs h₁, h₂⟩

/-! ## The rules -/

/-- From the calls `h` and the state `s` on, every execution ends with `Q` or raises with `E`. -/
def leads (W : Solo S σ) (Q : α → Hist S → σ → Prop) (E : S.Err → Hist S → σ → Prop) :
    Prog S α → Hist S → σ → Prop
  | .ret a, h, s => Q a h s
  | .raise e, h, s => E e h s
  | .act a k, h, s => ∀ s₁ r s₂, W.rely s s₁ → W.step a r s₁ s₂ →
      leads W Q E (k r) (h ++ [⟨a, r⟩]) s₂

theorem leads_exec {Q : α → Hist S → σ → Prop} {E : S.Err → Hist S → σ → Prop} {p : Prog S α}
    {s s' : σ} {es : Hist S} {out : Except S.Err α} (hx : W.Exec p s es out s') :
    ∀ {h : Hist S}, W.leads Q E p h s →
      (∀ a, out = .ok a → Q a (h ++ es) s') ∧ ∀ e, out = .error e → E e (h ++ es) s' := by
  induction hx with
  | ret a =>
    intro h hl
    rw [List.append_nil]
    refine ⟨fun b hb => ?_, fun e he => (by cases he)⟩
    cases hb
    exact hl
  | raise e =>
    intro h hl
    rw [List.append_nil]
    refine ⟨fun b hb => (by cases hb), fun e' he => ?_⟩
    cases he
    exact hl
  | act hr hs _ ih =>
    intro h hl
    have := ih (hl _ _ _ hr hs)
    simpa [List.append_assoc] using this

theorem leads_mono {Q B : α → Hist S → σ → Prop} {E D : S.Err → Hist S → σ → Prop} {p : Prog S α}
    (hQ : ∀ a h s, Q a h s → B a h s) (hE : ∀ e h s, E e h s → D e h s) :
    ∀ {h : Hist S} {s : σ}, W.leads Q E p h s → W.leads B D p h s := by
  induction p with
  | ret a => exact fun h => hQ a _ _ h
  | raise e => exact fun h => hE e _ _ h
  | act a k ih => exact fun h s₁ r s₂ hr hs => ih r (h s₁ r s₂ hr hs)

theorem leads_bind {Q : α → Hist S → σ → Prop} {R : β → Hist S → σ → Prop}
    {E : S.Err → Hist S → σ → Prop} {p : Prog S α} {f : α → Prog S β}
    (hf : ∀ a h s, Q a h s → W.leads R E (f a) h s) :
    ∀ {h : Hist S} {s : σ}, W.leads Q E p h s → W.leads R E (p.bind f) h s := by
  induction p with
  | ret a => exact fun h => hf a _ _ h
  | raise e => exact fun h => h
  | act a k ih => exact fun h s₁ r s₂ hr hs => ih r (h s₁ r s₂ hr hs)

theorem leads_handle {Q : α → Hist S → σ → Prop} {E D : S.Err → Hist S → σ → Prop} {p : Prog S α}
    {k : S.Err → Prog S α} (hk : ∀ e h s, E e h s → W.leads Q D (k e) h s) :
    ∀ {h : Hist S} {s : σ}, W.leads Q E p h s → W.leads Q D (p.handle k) h s := by
  induction p with
  | ret a => exact fun h => h
  | raise e => exact fun h => hk e _ _ h
  | act a k ih => exact fun h s₁ r s₂ hr hs => ih r (h s₁ r s₂ hr hs)

/-- The judgment: from calls and a state with `P` every execution of the program ends with `Q` or raises
with `E`. -/
def Triple (W : Solo S σ) (P : Hist S → σ → Prop) (p : Prog S α) (Q : α → Hist S → σ → Prop)
    (E : S.Err → Hist S → σ → Prop) : Prop :=
  ∀ h s, P h s → W.leads Q E p h s

/-- What happens between two calls does not matter to `P`. -/
def Stable (W : Solo S σ) (P : Hist S → σ → Prop) : Prop :=
  ∀ h s s', P h s → W.rely s s' → P h s'

namespace Triple

variable {P A : Hist S → σ → Prop} {Q B : α → Hist S → σ → Prop} {R : β → Hist S → σ → Prop}
  {E D : S.Err → Hist S → σ → Prop}

theorem exec {p : Prog S α} (hp : W.Triple P p Q E) {s s' : σ} {es : Hist S}
    {out : Except S.Err α} (h₀ : P [] s) (h : W.Exec p s es out s') :
    (∀ a, out = .ok a → Q a es s') ∧ ∀ e, out = .error e → E e es s' := by
  simpa using leads_exec h (hp [] s h₀)

theorem conseq {p : Prog S α} (h : W.Triple A p B D) (hP : ∀ h s, P h s → A h s)
    (hQ : ∀ a h s, B a h s → Q a h s) (hE : ∀ e h s, D e h s → E e h s) : W.Triple P p Q E :=
  fun h₁ s hp => leads_mono hQ hE (h h₁ s (hP h₁ s hp))

/-- Strengthen the precondition only. -/
theorem pre {p : Prog S α} (h : W.Triple A p Q E) (hP : ∀ h s, P h s → A h s) :
    W.Triple P p Q E :=
  h.conseq hP (fun _ _ _ h => h) fun _ _ _ h => h

theorem ret {a : α} (h : ∀ h s, P h s → Q a h s) : W.Triple P (.ret a) Q E := h

theorem raise {e : S.Err} (h : ∀ h s, P h s → E e h s) :
    W.Triple P (.raise e : Prog S α) Q E := h

theorem act {a : S.Act} {k : S.Res a → Prog S α} {V : S.Res a → Hist S → σ → Prop}
    (hst : W.Stable P) (h : ∀ r h s s', P h s → W.step a r s s' → V r (h ++ [⟨a, r⟩]) s')
    (hk : ∀ r, W.Triple (V r) (k r) Q E) : W.Triple P (.act a k) Q E :=
  fun h₁ s hP s₁ r s₂ hr hs => hk r _ _ (h r h₁ s₁ s₂ (hst h₁ s s₁ hP hr) hs)

theorem perform {a : S.Act} {Q : S.Res a → Hist S → σ → Prop} (hst : W.Stable P)
    (h : ∀ r h s s', P h s → W.step a r s s' → Q r (h ++ [⟨a, r⟩]) s') :
    W.Triple P (Prog.perform a) Q E :=
  act hst h fun _ => ret fun _ _ h => h

theorem bind {p : Prog S α} {f : α → Prog S β} (hp : W.Triple P p Q E)
    (hf : ∀ a, W.Triple (Q a) (f a) R E) : W.Triple P (p.bind f) R E :=
  fun h s hP => leads_bind (fun a h' s' hQ => hf a h' s' hQ) (hp h s hP)

theorem handle {p : Prog S α} {k : S.Err → Prog S α} (hp : W.Triple P p Q E)
    (hk : ∀ e, W.Triple (E e) (k e) Q D) : W.Triple P (p.handle k) Q D :=
  fun h s hP => leads_handle (fun e h' s' hE => hk e h' s' hE) (hp h s hP)

/-- A pure fact of the precondition can be assumed outside. -/
theorem pure {φ : Prop} {p : Prog S α} (h : φ → W.Triple P p Q E) :
    W.Triple (fun h s => φ ∧ P h s) p Q E :=
  fun h₁ s hP => h hP.1 h₁ s hP.2

/-- The loop rule with an assertion on what is left of the list. -/
theorem forEach {I : List α → Hist S → σ → Prop} {f : α → Prog S Unit}
    (hf : ∀ x xs, W.Triple (I (x :: xs)) (f x) (fun _ => I xs) E) :
    ∀ xs : List α, W.Triple (I xs) (Prog.forEach f xs) (fun _ => I []) E
  | [] => ret fun _ _ h => h
  | x :: xs => bind (hf x xs) fun _ => Triple.forEach hf xs

/-- The search rule: `I` holds while nothing was found. -/
theorem firstSome {I : List α → Hist S → σ → Prop} {f : α → Prog S (Option β)}
    {Q : Option β → Hist S → σ → Prop} (hnone : ∀ h s, I [] h s → Q none h s)
    (hf : ∀ x xs, W.Triple (I (x :: xs)) (f x)
      (fun o h s => match o with | some b => Q (some b) h s | none => I xs h s) E) :
    ∀ xs : List α, W.Triple (I xs) (Prog.firstSome f xs) Q E
  | [] => ret hnone
  | x :: xs => bind (hf x xs) fun o => by
      cases o with
      | none => exact Triple.firstSome hnone hf xs
      | some b => exact ret fun _ _ h => h

/-- Two judgments on one program. -/
theorem and {p : Prog S α} (h : W.Triple P p Q E) (h' : W.Triple A p B D) :
    W.Triple (fun h s => P h s ∧ A h s) p (fun a h s => Q a h s ∧ B a h s)
      fun e h s => E e h s ∧ D e h s := by
  have hboth : ∀ {h s}, W.leads Q E p h s → W.leads B D p h s →
      W.leads (fun a h s => Q a h s ∧ B a h s) (fun e h s => E e h s ∧ D e h s) p h s := by
    clear h h'
    induction p with
    | ret a => exact fun h h' => ⟨h, h'⟩
    | raise e => exact fun h h' => ⟨h, h'⟩
    | act a k ih => exact fun h h' s₁ r s₂ hr hs => ih r (h s₁ r s₂ hr hs) (h' s₁ r s₂ hr hs)
  exact fun h₁ s hP => hboth (h h₁ s hP.1) (h' h₁ s hP.2)

/-- What holds of every history of the program needs no state. -/
theorem of_after {P : Hist S → Prop} {Q : α → Hist S → Prop} {E : S.Err → Hist S → Prop}
    {p : Prog S α} (h : After P p Q E) :
    W.Triple (fun h _ => P h) p (fun a h _ => Q a h) fun e h _ => E e h := by
  have hends : ∀ {h s}, p.ends Q E h → W.leads (fun a h _ => Q a h) (fun e h _ => E e h) p h s := by
    clear h
    induction p with
    | ret a => exact fun h => h
    | raise e => exact fun h => h
    | act a k ih => exact fun h _ r _ _ _ => ih r (h r)
  exact fun h₁ s hP => hends (h h₁ hP)

/-- A program whose calls all keep `P` keeps it. -/
theorem keep {H : S.Act → Prop} {p : Prog S α} (hst : W.Stable P) (hp : p.All H)
    (hk : ∀ a r h s s', H a → P h s → W.step a r s s' → P (h ++ [⟨a, r⟩]) s') :
    W.Triple P p (fun _ => P) fun _ => P := by
  induction p with
  | ret a => exact ret fun _ _ h => h
  | raise e => exact raise fun _ _ h => h
  | act a k ih =>
    exact act hst (fun r h s s' hP hs => hk a r h s s' hp.1 hP hs) fun r => ih r (hp.2 r)

end Triple

/-! ## Over and over -/

/-- The thread on its own, making only calls for which `F` holds in the state they are made in. -/
def restrict (W : Solo S σ) (F : S.Act → σ → Prop) : Solo S σ where
  step a r s s' := F a s ∧ W.step a r s s'
  rely := W.rely

variable (W) in
/-- The thread runs `p` any number of times. Other threads may change the state in between, and it does
not matter how a time ends. -/
inductive Repeats (p : Prog S α) : σ → Hist S → σ → Prop
  | done (s : σ) : Repeats p s [] s
  | again {s s₁ s₂ s' : σ} {es es' : Hist S} {out : Except S.Err α} : W.rely s s₁ →
      W.Exec p s₁ es out s₂ → Repeats p s₂ es' s' → Repeats p s (es ++ es') s'

/-- What every time keeps is kept. -/
theorem Repeats.invariant {I : Hist S → σ → Prop} {p : Prog S α} (hst : W.Stable I)
    (hp : W.Triple I p (fun _ => I) fun _ => I) {s s' : σ} {es : Hist S}
    (h : W.Repeats p s es s') : ∀ {h₀ : Hist S}, I h₀ s → I (h₀ ++ es) s' := by
  induction h with
  | done s =>
    intro h₀ hs
    rwa [List.append_nil]
  | @again s s₁ s₂ s' es es' out hr hx _ ih =>
    intro h₀ hs
    have hend : I (h₀ ++ es) s₂ := by
      obtain ⟨hok, herr⟩ := leads_exec hx (hp h₀ s₁ (hst h₀ s s₁ hs hr))
      cases out with
      | ok a => exact hok a rfl
      | error e => exact herr e rfl
    rw [← List.append_assoc]
    exact ih hend

/-! ## Evaluation -/

/-- The execution on which the answers come from `choose`, which may use up `x`; `none` if a call cannot
be answered so. -/
def execute {X : Type} (exec : (a : S.Act) → S.Res a → σ → Option σ)
    (choose : (a : S.Act) → σ → X → Option (S.Res a × X)) :
    Prog S α → σ → X → Option (Hist S × Except S.Err α × σ)
  | .ret a, s, _ => some ([], .ok a, s)
  | .raise e, s, _ => some ([], .error e, s)
  | .act a k, s, x => do
    let (r, x) ← choose a s x
    let s ← exec a r s
    let (es, out, s) ← execute exec choose (k r) s x
    pure (⟨a, r⟩ :: es, out, s)

theorem exec_of_execute {X : Type} {exec : (a : S.Act) → S.Res a → σ → Option σ}
    {choose : (a : S.Act) → σ → X → Option (S.Res a × X)}
    (hexec : ∀ a r s s', exec a r s = some s' → W.step a r s s') (hrefl : ∀ s, W.rely s s)
    {p : Prog S α} {s : σ} {x : X} {y : Hist S × Except S.Err α × σ}
    (h : execute exec choose p s x = some y) : W.Exec p s y.1 y.2.1 y.2.2 := by
  induction p generalizing s x y with
  | ret a =>
    cases h
    exact .ret a s
  | raise e =>
    cases h
    exact .raise e s
  | act a k ih =>
    simp only [execute, Option.bind_eq_bind, Option.bind_eq_some_iff, Option.pure_def,
      Option.some.injEq] at h
    obtain ⟨⟨r, x'⟩, -, s₁, hs, ⟨es, out, s'⟩, hk, rfl⟩ := h
    exact .act (hrefl s) (hexec a r s s₁ hs) (ih r hk)

end Solo

end Conc
