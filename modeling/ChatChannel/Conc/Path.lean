import ChatChannel.Conc.Prog

/-!
# One program on its own

`Path p es out` says that `p`, given some answers, makes the calls `es` and ends with `out`. The
answers are arbitrary, so what holds of every path holds whatever state the program runs in and
whatever happens around it.

Properties of paths are proved with a Hoare logic over histories: `After P p Q E` says that from a
history with `P` the program ends in one with `Q`, or raises in one with `E` (`After.path`).
`replay` evaluates one path.
-/

set_option autoImplicit false

namespace Conc

variable {S : Sig} {α β : Type}

/-- A call with its answer. -/
abbrev Call (S : Sig) : Type := (a : S.Act) × S.Res a

/-- The calls made so far. -/
abbrev Hist (S : Sig) : Type := List (Call S)

namespace Prog

inductive Path : Prog S α → Hist S → Except S.Err α → Prop
  | ret (a : α) : Path (ret a) [] (.ok a)
  | raise (e : S.Err) : Path (raise e) [] (.error e)
  | act {a : S.Act} {k : S.Res a → Prog S α} {r : S.Res a} {es : Hist S} {out : Except S.Err α} :
      Path (k r) es out → Path (act a k) (⟨a, r⟩ :: es) out

/-! ## Inversion -/

theorem path_ret_iff {a : α} {es : Hist S} {out : Except S.Err α} :
    Path (ret a) es out ↔ es = [] ∧ out = .ok a := by
  constructor
  · intro h
    cases h
    exact ⟨rfl, rfl⟩
  · rintro ⟨rfl, rfl⟩
    exact .ret a

theorem path_raise_iff {e : S.Err} {es : Hist S} {out : Except S.Err α} :
    Path (raise e) es out ↔ es = [] ∧ out = .error e := by
  constructor
  · intro h
    cases h
    exact ⟨rfl, rfl⟩
  · rintro ⟨rfl, rfl⟩
    exact .raise e

theorem path_act_iff {a : S.Act} {k : S.Res a → Prog S α} {es : Hist S} {out : Except S.Err α} :
    Path (act a k) es out ↔ ∃ r es', es = ⟨a, r⟩ :: es' ∧ Path (k r) es' out := by
  constructor
  · intro h
    cases h with
    | act h => exact ⟨_, _, rfl, h⟩
  · rintro ⟨r, es', rfl, h⟩
    exact .act h

theorem Path.bind {p : Prog S α} {f : α → Prog S β} {es es' : Hist S} {a : α}
    {out : Except S.Err β} (hp : Path p es (.ok a)) (hf : Path (f a) es' out) :
    Path (p.bind f) (es ++ es') out := by
  generalize ho : (Except.ok a : Except S.Err α) = o at hp
  induction hp with
  | ret b =>
    cases ho
    exact hf
  | raise => cases ho
  | act _ ih => exact .act (ih ho)

theorem Path.bind_error {p : Prog S α} {f : α → Prog S β} {es : Hist S} {e : S.Err}
    (hp : Path p es (.error e)) : Path (p.bind f) es (.error e) := by
  generalize ho : (Except.error e : Except S.Err α) = o at hp
  induction hp with
  | ret => cases ho
  | raise =>
    cases ho
    exact .raise e
  | act _ ih => exact .act (ih ho)

/-- A path of a sequence is a path of the first part that raises, or goes on in the second. -/
theorem path_bind_iff {p : Prog S α} {f : α → Prog S β} {es : Hist S} {out : Except S.Err β} :
    Path (p.bind f) es out ↔
      (∃ es₁ a es₂, es = es₁ ++ es₂ ∧ Path p es₁ (.ok a) ∧ Path (f a) es₂ out) ∨
      ∃ e, out = .error e ∧ Path p es (.error e) := by
  constructor
  · intro h
    induction p generalizing es with
    | ret a => exact .inl ⟨[], a, es, rfl, .ret a, h⟩
    | raise e =>
      obtain ⟨rfl, rfl⟩ := path_raise_iff.mp h
      exact .inr ⟨e, rfl, .raise e⟩
    | act a k ih =>
      obtain ⟨r, es, rfl, hk⟩ := path_act_iff.mp h
      rcases ih r hk with ⟨es₁, b, es₂, rfl, h₁, h₂⟩ | ⟨e, rfl, he⟩
      · exact .inl ⟨_ :: es₁, b, es₂, rfl, .act h₁, h₂⟩
      · exact .inr ⟨e, rfl, .act he⟩
  · rintro (⟨es₁, a, es₂, rfl, h₁, h₂⟩ | ⟨e, rfl, he⟩)
    · exact h₁.bind h₂
    · exact he.bind_error

/-- A path under a handler is a path that returns, or raises and goes on in the handler. -/
theorem path_handle_iff {p : Prog S α} {k : S.Err → Prog S α} {es : Hist S}
    {out : Except S.Err α} :
    Path (p.handle k) es out ↔ (∃ a, out = .ok a ∧ Path p es (.ok a)) ∨
      ∃ es₁ e es₂, es = es₁ ++ es₂ ∧ Path p es₁ (.error e) ∧ Path (k e) es₂ out := by
  constructor
  · intro h
    induction p generalizing es with
    | ret a =>
      obtain ⟨rfl, rfl⟩ := path_ret_iff.mp h
      exact .inl ⟨a, rfl, .ret a⟩
    | raise e => exact .inr ⟨[], e, es, rfl, .raise e, h⟩
    | act a f ih =>
      obtain ⟨r, es, rfl, hk⟩ := path_act_iff.mp h
      rcases ih r hk with ⟨b, rfl, hb⟩ | ⟨es₁, e, es₂, rfl, h₁, h₂⟩
      · exact .inl ⟨b, rfl, .act hb⟩
      · exact .inr ⟨_ :: es₁, e, es₂, rfl, .act h₁, h₂⟩
  · intro h
    induction p generalizing es with
    | ret a =>
      rcases h with ⟨b, rfl, hb⟩ | ⟨es₁, e, es₂, rfl, h₁, h₂⟩
      · obtain ⟨rfl, hb⟩ := path_ret_iff.mp hb
        cases hb
        exact .ret _
      · obtain ⟨-, hb⟩ := path_ret_iff.mp h₁
        cases hb
    | raise e =>
      rcases h with ⟨b, rfl, hb⟩ | ⟨es₁, e', es₂, rfl, h₁, h₂⟩
      · obtain ⟨-, hb⟩ := path_raise_iff.mp hb
        cases hb
      · obtain ⟨rfl, hb⟩ := path_raise_iff.mp h₁
        cases hb
        exact h₂
    | act a f ih =>
      rcases h with ⟨b, rfl, hb⟩ | ⟨es₁, e, es₂, rfl, h₁, h₂⟩
      · obtain ⟨r, es, rfl, hk⟩ := path_act_iff.mp hb
        exact .act (ih r (.inl ⟨b, rfl, hk⟩))
      · obtain ⟨r, es₁, rfl, hk⟩ := path_act_iff.mp h₁
        exact .act (ih r (.inr ⟨es₁, e, es₂, rfl, hk, h₂⟩))

/-- Every call of a path is one the program can make. -/
theorem Path.all {H : S.Act → Prop} {p : Prog S α} {es : Hist S} {out : Except S.Err α}
    (h : Path p es out) (hp : p.All H) : ∀ e ∈ es, H e.1 := by
  induction h with
  | ret => simp
  | raise => simp
  | act _ ih =>
    intro e he
    rcases List.mem_cons.mp he with rfl | he
    · exact hp.1
    · exact ih (hp.2 _) e he

/-! ## Loops -/

/-- The rounds of a loop, each with its calls and how it ended: all elements are gone through, or the
last round raised. -/
inductive Rounds (f : α → Prog S Unit) : List α → List (Hist S × Except S.Err Unit) → Prop
  | nil : Rounds f [] []
  | next {x : α} {xs : List α} {es : Hist S} {rs : List (Hist S × Except S.Err Unit)} :
      (f x).Path es (.ok ()) → Rounds f xs rs → Rounds f (x :: xs) ((es, .ok ()) :: rs)
  | raised {x : α} {xs : List α} {es : Hist S} {e : S.Err} :
      (f x).Path es (.error e) → Rounds f (x :: xs) [(es, .error e)]

/-- How the loop ends: with the first exception, if there is one. -/
def ending : List (Hist S × Except S.Err Unit) → Except S.Err Unit
  | [] => .ok ()
  | (_, .ok ()) :: rs => ending rs
  | (_, .error e) :: _ => .error e

theorem path_forEach_iff {f : α → Prog S Unit} {xs : List α} {es : Hist S}
    {out : Except S.Err Unit} : (forEach f xs).Path es out ↔
      ∃ rs, Rounds f xs rs ∧ es = rs.flatMap Prod.fst ∧ out = ending rs := by
  induction xs generalizing es with
  | nil =>
    constructor
    · intro h
      obtain ⟨rfl, rfl⟩ := path_ret_iff.mp h
      exact ⟨[], .nil, rfl, rfl⟩
    · rintro ⟨rs, hr, rfl, rfl⟩
      cases hr
      exact .ret ()
  | cons x xs ih =>
    constructor
    · intro h
      rcases path_bind_iff.mp h with ⟨es₁, u, es₂, rfl, h₁, h₂⟩ | ⟨e, rfl, he⟩
      · obtain ⟨rs, hr, rfl, rfl⟩ := ih.mp h₂
        exact ⟨(es₁, .ok ()) :: rs, .next h₁ hr, rfl, rfl⟩
      · exact ⟨[(es, .error e)], .raised he, by simp, rfl⟩
    · rintro ⟨rs, hr, rfl, rfl⟩
      cases hr with
      | next h₁ hr => exact h₁.bind (ih.mpr ⟨_, hr, rfl, rfl⟩)
      | raised he =>
        rw [List.flatMap_singleton]
        exact he.bind_error

/-- All rounds went well, or all but the last. -/
theorem Rounds.ended {f : α → Prog S Unit} {xs : List α} {rs : List (Hist S × Except S.Err Unit)}
    (h : Rounds f xs rs) :
    (ending rs = .ok () ∧ rs.length = xs.length ∧ ∀ r ∈ rs, r.2 = .ok ()) ∨
      ∃ rs' es e, rs = rs' ++ [(es, .error e)] ∧ (∀ r ∈ rs', r.2 = .ok ()) ∧
        ending rs = .error e ∧ rs.length ≤ xs.length := by
  induction h with
  | nil => exact .inl ⟨rfl, rfl, by simp⟩
  | @next x xs es rs _ _ ih =>
    rcases ih with ⟨he, hl, hall⟩ | ⟨rs', es', e, rfl, hall, he, hl⟩
    · refine .inl ⟨he, by simp [hl], fun r hr => ?_⟩
      rcases List.mem_cons.mp hr with rfl | hr
      · rfl
      · exact hall r hr
    · refine .inr ⟨(es, .ok ()) :: rs', es', e, rfl, fun r hr => ?_, he, by simpa using hl⟩
      rcases List.mem_cons.mp hr with rfl | hr
      · rfl
      · exact hall r hr
  | @raised x xs es e _ => exact .inr ⟨[], es, e, rfl, by simp, rfl, by simp⟩

/-! ## Evaluation -/

/-- How the program ends when its calls are the ones in the list, with these answers. -/
def replay [DecidableEq S.Act] : Prog S α → Hist S → Option (Except S.Err α)
  | ret a, [] => some (.ok a)
  | raise e, [] => some (.error e)
  | act a k, ⟨b, r⟩ :: es => if h : b = a then replay (k (h ▸ r)) es else none
  | _, _ => none

theorem path_of_replay [DecidableEq S.Act] {p : Prog S α} {es : Hist S} {out : Except S.Err α}
    (h : replay p es = some out) : Path p es out := by
  induction p generalizing es with
  | ret a =>
    cases es with
    | nil =>
      cases h
      exact .ret a
    | cons => cases h
  | raise e =>
    cases es with
    | nil =>
      cases h
      exact .raise e
    | cons => cases h
  | act a k ih =>
    cases es with
    | nil => cases h
    | cons d es =>
      obtain ⟨b, r⟩ := d
      unfold replay at h
      split at h
      · rename_i hb
        subst hb
        exact .act (ih r h)
      · cases h

/-! ## Histories -/

/-- From the history `h`, every path of the program ends with `Q` or raises with `E`. -/
def ends (Q : α → Hist S → Prop) (E : S.Err → Hist S → Prop) : Prog S α → Hist S → Prop
  | ret a, h => Q a h
  | raise e, h => E e h
  | act a k, h => ∀ r, ends Q E (k r) (h ++ [⟨a, r⟩])

theorem ends_path {Q : α → Hist S → Prop} {E : S.Err → Hist S → Prop} {p : Prog S α} {es : Hist S}
    {out : Except S.Err α} (hp : Path p es out) : ∀ {h : Hist S}, ends Q E p h →
      (∀ a, out = .ok a → Q a (h ++ es)) ∧ ∀ e, out = .error e → E e (h ++ es) := by
  induction hp with
  | ret a =>
    intro h he
    rw [List.append_nil]
    refine ⟨fun b hb => ?_, fun e he' => (by cases he')⟩
    cases hb
    exact he
  | raise e =>
    intro h he
    rw [List.append_nil]
    refine ⟨fun b hb => (by cases hb), fun e' he' => ?_⟩
    cases he'
    exact he
  | @act a k r es out _ ih =>
    intro h he
    have := ih (he r)
    simpa [List.append_assoc] using this

theorem ends_mono {Q B : α → Hist S → Prop} {E D : S.Err → Hist S → Prop} {p : Prog S α}
    (hQ : ∀ a h, Q a h → B a h) (hE : ∀ e h, E e h → D e h) :
    ∀ {h : Hist S}, ends Q E p h → ends B D p h := by
  induction p with
  | ret a => exact fun h => hQ a _ h
  | raise e => exact fun h => hE e _ h
  | act a k ih => exact fun h r => ih r (h r)

theorem ends_bind {Q : α → Hist S → Prop} {R : β → Hist S → Prop} {E : S.Err → Hist S → Prop}
    {p : Prog S α} {f : α → Prog S β} (hf : ∀ a h, Q a h → ends R E (f a) h) :
    ∀ {h : Hist S}, ends Q E p h → ends R E (p.bind f) h := by
  induction p with
  | ret a => exact fun h => hf a _ h
  | raise e => exact fun h => h
  | act a k ih => exact fun h r => ih r (h r)

theorem ends_handle {Q : α → Hist S → Prop} {E D : S.Err → Hist S → Prop} {p : Prog S α}
    {k : S.Err → Prog S α} (hk : ∀ e h, E e h → ends Q D (k e) h) :
    ∀ {h : Hist S}, ends Q E p h → ends Q D (p.handle k) h := by
  induction p with
  | ret a => exact fun h => h
  | raise e => exact fun h => hk e _ h
  | act a k ih => exact fun h r => ih r (h r)

end Prog

/-! ## The rules -/

/-- The judgment: from a history with `P` the program ends with `Q` or raises with `E`. -/
def After (P : Hist S → Prop) (p : Prog S α) (Q : α → Hist S → Prop) (E : S.Err → Hist S → Prop) :
    Prop :=
  ∀ h, P h → p.ends Q E h

namespace After

variable {P A : Hist S → Prop} {Q B : α → Hist S → Prop} {R : β → Hist S → Prop}
  {E D : S.Err → Hist S → Prop}

theorem path {p : Prog S α} (hp : After P p Q E) (h₀ : P []) {es : Hist S} {out : Except S.Err α}
    (h : p.Path es out) : (∀ a, out = .ok a → Q a es) ∧ ∀ e, out = .error e → E e es := by
  simpa using Prog.ends_path h (hp [] h₀)

theorem conseq {p : Prog S α} (h : After A p B D) (hP : ∀ h, P h → A h)
    (hQ : ∀ a h, B a h → Q a h) (hE : ∀ e h, D e h → E e h) : After P p Q E :=
  fun h₁ hp => Prog.ends_mono hQ hE (h h₁ (hP h₁ hp))

theorem ret {a : α} (h : ∀ h, P h → Q a h) : After P (.ret a) Q E := h

theorem raise {e : S.Err} (h : ∀ h, P h → E e h) : After P (.raise e : Prog S α) Q E := h

theorem act {a : S.Act} {k : S.Res a → Prog S α} {V : S.Res a → Hist S → Prop}
    (h : ∀ r h, P h → V r (h ++ [⟨a, r⟩])) (hk : ∀ r, After (V r) (k r) Q E) :
    After P (.act a k) Q E :=
  fun h₁ hP r => hk r _ (h r h₁ hP)

theorem perform {a : S.Act} {Q : S.Res a → Hist S → Prop}
    (h : ∀ r h, P h → Q r (h ++ [⟨a, r⟩])) : After P (Prog.perform a) Q E :=
  fun h₁ hP r => h r h₁ hP

theorem bind {p : Prog S α} {f : α → Prog S β} (hp : After P p Q E)
    (hf : ∀ a, After (Q a) (f a) R E) : After P (p.bind f) R E :=
  fun h hP => Prog.ends_bind (fun a h' hQ => hf a h' hQ) (hp h hP)

theorem handle {p : Prog S α} {k : S.Err → Prog S α} (hp : After P p Q E)
    (hk : ∀ e, After (E e) (k e) Q D) : After P (p.handle k) Q D :=
  fun h hP => Prog.ends_handle (fun e h' hE => hk e h' hE) (hp h hP)

theorem forEach {I : Hist S → Prop} {f : α → Prog S Unit}
    (hf : ∀ x, After I (f x) (fun _ => I) E) :
    ∀ xs : List α, After I (Prog.forEach f xs) (fun _ => I) E
  | [] => ret fun _ h => h
  | x :: xs => bind (hf x) fun _ => After.forEach hf xs

theorem firstSome {I : Hist S → Prop} {Q : Option β → Hist S → Prop}
    {f : α → Prog S (Option β)} (hnone : ∀ h, I h → Q none h)
    (hf : ∀ x, After I (f x)
      (fun o h => match o with | some b => Q (some b) h | none => I h) E) :
    ∀ xs : List α, After I (Prog.firstSome f xs) Q E
  | [] => ret hnone
  | x :: xs => bind (hf x) fun o => by
      cases o with
      | none => exact After.firstSome hnone hf xs
      | some b => exact ret fun _ h => h

/-- A program whose calls all keep `P` keeps it. -/
theorem keep {H : S.Act → Prop} {p : Prog S α} (hp : p.All H)
    (hk : ∀ a r h, H a → P h → P (h ++ [⟨a, r⟩])) :
    After P p (fun _ => P) (fun _ => P) := by
  induction p with
  | ret a => exact ret fun _ h => h
  | raise e => exact raise fun _ h => h
  | act a k ih => exact act (fun r h hP => hk a r h hp.1 hP) fun r => ih r (hp.2 r)

end After

end Conc
