import Mathlib.Data.List.Count
import ChatChannel.Model.Shared

/-!
# The task runner

`TaskRunner` under its mutex, which it keeps while the tasks run. `Passes` says what a run does to the sessions
and which tasks it calls; by `Monitor.refines_spec` every method is a single step. In such steps the books of the
tasks balance: what was pushed is still there, was popped, or was to run once and has returned.
-/

set_option autoImplicit false

namespace ChatChannel

open Conc

namespace TaskRunner

variable {F ε : Type}

/-! ## What a run does -/

/-- What a task that has returned leaves in its session. -/
def Task.stays (t : Task F) : List (Task F) := if t.once then [] else [t]

/-- A session before and after it was gone through, with the exception that ended the loop and the calls made. -/
inductive Sweeps : List (Task F) → Option ε → List (Task F) → List (Task F × Bool) → Prop
  | nil : Sweeps [] none [] []
  | fails (t : Task F) (ts : List (Task F)) (e : ε) : Sweeps (t :: ts) (some e) (t :: ts) [(t, false)]
  | goes {t : Task F} {ts ts' : List (Task F)} {o : Option ε} {l : List (Task F × Bool)} :
      Sweeps ts o ts' l → Sweeps (t :: ts) o (t.stays ++ ts') ((t, true) :: l)

/-- The sessions, one after the other. -/
inductive Passes : List (List (Task F)) → Option ε → List (List (Task F)) → List (Task F × Bool) → Prop
  | nil : Passes [] none [] []
  | fails {s s' : List (Task F)} {ss : List (List (Task F))} {e : ε} {l : List (Task F × Bool)} :
      Sweeps s (some e) s' l → Passes (s :: ss) (some e) (s' :: ss) l
  | goes {s s' : List (Task F)} {ss ss' : List (List (Task F))} {o : Option ε} {l k : List (Task F × Bool)} :
      Sweeps s (none : Option ε) s' l → Passes ss o ss' k → Passes (s :: ss) o (s' :: ss') (l ++ k)

/-- How a method ends when a task did. -/
def ending : Option ε → Except (Raised ε) Unit
  | none => .ok ()
  | some e => .error (.task e)

section

variable {pre post : List (List (Task F))} {s s' : List (Task F)} {l : List (Task F × Bool)} {d' : Members F}
  {out : Except (Raised ε) Unit}

@[simp] theorem session_at : (⟨pre ++ s :: post, l⟩ : Members F).session pre.length = s := by
  simp [Members.session]

@[simp] theorem modify_at {f : List (Task F) → List (Task F)} :
    (pre ++ s :: post).modify pre.length f = pre ++ f s :: post := by
  induction pre with
  | nil => rfl
  | cons x pre ih => exact congrArg (x :: ·) ih

theorem eraseIdx_at {t : Task F} {visited ts : List (Task F)} :
    (visited ++ t :: ts).eraseIdx visited.length = visited ++ ts := by
  induction visited with
  | nil => rfl
  | cons x visited ih => exact congrArg (x :: ·) ih

/-- `it = it->once ? session.erase(it) : std::next(it)`: what is behind an erased task moves up. -/
theorem yields_pass {fuel : Nat} {t : Task F} {visited ts : List (Task F)} :
    Yields step (if t.once then do access (.erase pre.length visited.length); sweep pre.length fuel visited.length
        else sweep pre.length fuel (visited.length + 1)) ⟨pre ++ (visited ++ t :: ts) :: post, l⟩ out d' ↔
      Yields step (sweep pre.length fuel (visited ++ t.stays).length)
        ⟨pre ++ ((visited ++ t.stays) ++ ts) :: post, l⟩ out d' := by
  unfold Task.stays
  cases t.once with
  | true =>
    rw [if_pos rfl, if_pos rfl, List.append_nil]
    refine (yields_act (r := ()) fun _ _ => ⟨fun h => ⟨rfl, h⟩, And.right⟩).trans ?_
    rw [modify_at, eraseIdx_at]
    exact Iff.rfl
  | false =>
    rw [if_neg Bool.false_ne_true, if_neg Bool.false_ne_true, List.append_assoc, List.length_append]
    exact Iff.rfl

/-- The loop over a session, when `visited` are the tasks it has passed and left there. -/
theorem yields_sweep {fuel : Nat} (visited : List (Task F)) {rest : List (Task F)} (hfuel : rest.length ≤ fuel) :
    Yields step (sweep pre.length fuel visited.length) ⟨pre ++ (visited ++ rest) :: post, l⟩ out d' ↔
      ∃ (o : Option ε) (rest' : List (Task F)) (k : List (Task F × Bool)), Sweeps rest o rest' k ∧
        out = ending o ∧ d' = ⟨pre ++ (visited ++ rest') :: post, l ++ k⟩ := by
  induction fuel generalizing visited rest l with
  | zero =>
    obtain rfl : rest = [] := List.eq_nil_of_length_eq_zero (Nat.le_zero.mp hfuel)
    constructor
    · rintro ⟨rfl, rfl⟩
      exact ⟨none, [], [], .nil, rfl, by rw [List.append_nil, List.append_nil]⟩
    · rintro ⟨o, rest', k, h, rfl, rfl⟩
      cases h
      exact ⟨rfl, by rw [List.append_nil, List.append_nil]⟩
  | succ fuel ih =>
    refine (yields_act fun _ _ => Iff.rfl).trans ?_
    rw [session_at]
    cases rest with
    | nil =>
      -- the iterator is at the end
      rw [List.append_nil, List.getElem?_eq_none (Nat.le_refl _)]
      constructor
      · rintro ⟨rfl, rfl⟩
        exact ⟨none, [], [], .nil, rfl, by rw [List.append_nil, List.append_nil]⟩
      · rintro ⟨o, rest', k, h, rfl, rfl⟩
        cases h
        exact ⟨rfl, by rw [List.append_nil, List.append_nil]⟩
    | cons t ts =>
      have hts : ts.length ≤ fuel := Nat.le_of_succ_le_succ hfuel
      rw [List.getElem?_append_right (Nat.le_refl _), Nat.sub_self, List.getElem?_cons_zero]
      constructor
      · rintro ⟨r, d, rfl, h⟩
        cases r with
        | error e =>
          obtain ⟨rfl, rfl⟩ := h
          exact ⟨some e, t :: ts, [(t, false)], .fails t ts e, rfl, rfl⟩
        | ok u =>
          obtain ⟨o, rest', k, hs, rfl, rfl⟩ := (ih _ hts).mp (yields_pass.mp h)
          refine ⟨o, t.stays ++ rest', (t, true) :: k, hs.goes, rfl, ?_⟩
          rw [List.append_assoc, List.append_assoc]
          rfl
      · rintro ⟨o, rest', k, h, rfl, rfl⟩
        cases h with
        | fails t ts e => exact ⟨.error e, _, rfl, rfl, rfl⟩
        | @goes t ts ts' o k hs =>
          refine ⟨.ok (), _, rfl, yields_pass.mpr ((ih _ hts).mpr ⟨o, ts', k, hs, rfl, ?_⟩)⟩
          rw [List.append_assoc, List.append_assoc]
          rfl

/-- The range-for over the sessions behind `pre`. -/
theorem yields_sessions (pre : List (List (Task F))) {ss : List (List (Task F))} :
    Yields step (Prog.forEach (fun i => do sweep i (← access (.length i)) 0) (List.range' pre.length ss.length))
        ⟨pre ++ ss, l⟩ out d' ↔
      ∃ (o : Option ε) (ss' : List (List (Task F))) (k : List (Task F × Bool)), Passes ss o ss' k ∧
        out = ending o ∧ d' = ⟨pre ++ ss', l ++ k⟩ := by
  induction ss generalizing pre l with
  | nil =>
    constructor
    · rintro ⟨rfl, rfl⟩
      exact ⟨none, [], [], .nil, rfl, by rw [List.append_nil, List.append_nil]⟩
    · rintro ⟨o, ss', k, h, rfl, rfl⟩
      cases h
      exact ⟨rfl, by rw [List.append_nil, List.append_nil]⟩
  | cons s ss ih =>
    have hone {out : Except (Raised ε) Unit} {d' : Members F} :
        Yields step (do sweep pre.length (← access (.length pre.length)) 0) ⟨pre ++ s :: ss, l⟩ out d' ↔
          ∃ (o : Option ε) (s' : List (Task F)) (k : List (Task F × Bool)), Sweeps s o s' k ∧
            out = ending o ∧ d' = ⟨pre ++ s' :: ss, l ++ k⟩ := by
      refine (yields_act fun _ _ => Iff.rfl).trans ?_
      rw [session_at]
      exact yields_sweep [] (Nat.le_refl _)
    have hnext (s' : List (Task F)) : pre ++ s' :: ss = (pre ++ [s']) ++ ss := by
      rw [List.append_assoc]
      rfl
    rw [List.length_cons, List.range'_succ]
    refine yields_bind.trans ?_
    constructor
    · rintro (⟨u, d, h, hrest⟩ | ⟨e, rfl, h⟩)
      · obtain ⟨o, s', k, hs, ho, rfl⟩ := hone.mp h
        cases o with
        | some e => cases ho
        | none =>
          rw [hnext, show pre.length + 1 = (pre ++ [s']).length by rw [List.length_append]; rfl] at hrest
          obtain ⟨o, ss', k', hss, rfl, rfl⟩ := (ih _).mp hrest
          refine ⟨o, s' :: ss', k ++ k', .goes hs hss, rfl, ?_⟩
          rw [List.append_assoc, List.append_assoc]
          rfl
      · obtain ⟨o, s', k, hs, ho, rfl⟩ := hone.mp h
        cases o with
        | none => cases ho
        | some e =>
          cases ho
          exact ⟨some e, s' :: ss, k, .fails hs, rfl, rfl⟩
    · rintro ⟨o, ss', k, h, rfl, rfl⟩
      cases h with
      | fails hs => exact .inr ⟨_, rfl, hone.mpr ⟨_, _, _, hs, rfl, rfl⟩⟩
      | @goes _ s' _ ss' o k k' hs hss =>
        refine .inl ⟨(), _, hone.mpr ⟨none, s', k, hs, rfl, rfl⟩, ?_⟩
        rw [hnext, show pre.length + 1 = (pre ++ [s']).length by rw [List.length_append]; rfl]
        refine (ih _).mpr ⟨o, ss', k', hss, rfl, ?_⟩
        rw [List.append_assoc, List.append_assoc]
        rfl

theorem yields_run {d : Members F} : Yields step run d out d' ↔
    ∃ (o : Option ε) (ss' : List (List (Task F))) (k : List (Task F × Bool)), Passes d.tasks o ss' k ∧
      out = ending o ∧ d' = ⟨ss', d.invoked ++ k⟩ := by
  refine (yields_act fun _ _ => Iff.rfl).trans ?_
  rw [Prog.bind_ret, List.range_eq_range']
  exact yields_sessions []

end

/-! ### Tasks that stay

The servers push no others, so that `run` of `Model/Server.lean` reads the sessions once. -/

theorem Sweeps.permanent {s s' : List (Task F)} {o : Option ε} {l : List (Task F × Bool)} (h : Sweeps s o s' l)
    (hs : ∀ t ∈ s, t.once = false) :
    s' = s ∧ ∃ rest, s = l.map Prod.fst ++ rest ∧ (o = none → rest = [] ∧ ∀ p ∈ l, p.2 = true) := by
  induction h with
  | nil => exact ⟨rfl, [], rfl, fun _ => ⟨rfl, fun p hp => absurd hp (List.not_mem_nil)⟩⟩
  | fails t ts e => exact ⟨rfl, ts, rfl, fun he => by cases he⟩
  | @goes t ts ts' o l _ ih =>
    obtain ⟨rfl, rest, hrest, hall⟩ := ih fun u hu => hs u (List.mem_cons_of_mem t hu)
    have hstays : t.stays = [t] := by
      unfold Task.stays
      rw [hs t List.mem_cons_self]
      rfl
    refine ⟨by rw [hstays]; rfl, rest, congrArg (t :: ·) hrest, fun ho => ⟨(hall ho).1, fun p hp => ?_⟩⟩
    rcases List.mem_cons.mp hp with rfl | hp
    · rfl
    · exact (hall ho).2 p hp

/-- A run leaves such sessions as they are. It calls the tasks in order, up to the one that fails. -/
theorem Passes.permanent {ss ss' : List (List (Task F))} {o : Option ε} {l : List (Task F × Bool)}
    (h : Passes ss o ss' l) (hs : ∀ t ∈ ss.flatten, t.once = false) :
    ss' = ss ∧ ∃ rest, ss.flatten = l.map Prod.fst ++ rest ∧ (o = none → rest = [] ∧ ∀ p ∈ l, p.2 = true) := by
  induction h with
  | nil => exact ⟨rfl, [], rfl, fun _ => ⟨rfl, fun p hp => absurd hp (List.not_mem_nil)⟩⟩
  | @fails s s' ss e l h =>
    obtain ⟨rfl, rest, hrest, -⟩ := h.permanent fun t ht => hs t (List.mem_append_left _ ht)
    refine ⟨rfl, rest ++ ss.flatten, ?_, fun he => by cases he⟩
    rw [List.flatten_cons, ← List.append_assoc, ← hrest]
  | @goes s s' ss ss' o l k h _ ih =>
    obtain ⟨rfl, rest, hrest, hall⟩ := h.permanent fun t ht => hs t (List.mem_append_left _ ht)
    obtain ⟨rfl, rest', hrest', hall'⟩ := ih fun t ht => hs t (List.mem_append_right _ ht)
    obtain ⟨rfl, hreturned⟩ := hall rfl
    rw [List.append_nil] at hrest
    refine ⟨rfl, rest', ?_, fun ho => ⟨(hall' ho).1, fun p hp => ?_⟩⟩
    · rw [List.flatten_cons, hrest', List.map_append, List.append_assoc, ← hrest]
    · rcases List.mem_append.mp hp with hp | hp
      · exact hreturned p hp
      · exact (hall' ho).2 p hp

/-! ## The methods -/

/-- What `exec_locked` makes of a change of one session, which may find the session empty. -/
def Locked (i : Nat) (g : List (Task F) → Bool) (f : List (Task F) → List (Task F))
    (r : Except (Raised ε) Unit) (d d' : Members F) : Prop :=
  if d.tasks.length ≤ i then r = .error .outOfRange ∧ d' = d
  else r = (if g (d.session i) then .ok () else .error .emptyDeque) ∧
    d' = { d with tasks := d.tasks.modify i f }

/-- What a method may do. How the tasks of a run end is up to them. -/
def Allows : Op F → Except (Raised ε) Unit → Members F → Members F → Prop
  | .pushOncef i f => Locked i (fun _ => true) (⟨true, f⟩ :: ·)
  | .pushOnceb i f => Locked i (fun _ => true) (· ++ [⟨true, f⟩])
  | .pushf i f => Locked i (fun _ => true) (⟨false, f⟩ :: ·)
  | .pushb i f => Locked i (fun _ => true) (· ++ [⟨false, f⟩])
  | .popf i => Locked i (fun s => !s.isEmpty) List.tail
  | .popb i => Locked i (fun s => !s.isEmpty) List.dropLast
  | .newSession n => fun r d d' => r = .ok () ∧ d' = { d with tasks := d.tasks ++ List.replicate n [] }
  | .run => fun r d d' => ∃ (o : Option ε) (ss' : List (List (Task F))) (k : List (Task F × Bool)),
      Passes d.tasks o ss' k ∧ r = ending o ∧ d' = ⟨ss', d.invoked ++ k⟩

section

variable {i : Nat} {d d' : Members F} {r : Except (Raised ε) Unit}

theorem yields_execLocked {p : Prog (accesses F ε) Unit} {g : List (Task F) → Bool}
    {f : List (Task F) → List (Task F)}
    (hp : Yields step p d r d' ↔ r = (if g (d.session i) then .ok () else .error .emptyDeque) ∧
      d' = { d with tasks := d.tasks.modify i f }) :
    Yields step (execLocked i p) d r d' ↔ Locked i g f r d d' := by
  refine (yields_act fun _ _ => Iff.rfl).trans ?_
  unfold Locked
  by_cases hi : d.tasks.length ≤ i
  · rw [Prog.bind_ret, if_pos hi, if_pos hi]
    exact Iff.rfl
  · rw [Prog.bind_ret, if_neg hi, if_neg hi]
    exact hp

theorem yields_push {a : Access F} {f : List (Task F) → List (Task F)} {k : AccessRes ε a → Prog (accesses F ε) Unit}
    {b : AccessRes ε a} (ha : ∀ q x, step a q d x ↔ q = b ∧ x = { d with tasks := d.tasks.modify i f })
    (hk : k b = .ret ()) :
    Yields (B := accesses F ε) step (.act a k) d r d' ↔
      r = (if true then .ok () else .error .emptyDeque) ∧ d' = { d with tasks := d.tasks.modify i f } := by
  refine (yields_act ha).trans ?_
  rw [hk]
  exact Iff.rfl

/-- `pop_front` or `pop_back`. -/
theorem yields_pop {a : Access F} {f : List (Task F) → List (Task F)} {k : AccessRes ε a → Prog (accesses F ε) Unit}
    {b : AccessRes ε a} (ha : ∀ q x, step a q d x ↔ q = b ∧ x = { d with tasks := d.tasks.modify i f })
    (hk : k b = if (d.session i).isEmpty then .raise .emptyDeque else .ret ()) :
    Yields (B := accesses F ε) step (.act a k) d r d' ↔ r = (if !(d.session i).isEmpty then .ok () else .error .emptyDeque) ∧
      d' = { d with tasks := d.tasks.modify i f } := by
  refine (yields_act ha).trans ?_
  rw [hk]
  cases (d.session i).isEmpty with
  | true => exact Iff.rfl
  | false => exact Iff.rfl

theorem yields_newSession {xs : List Nat} : Yields step (Prog.forEach (fun _ => access .emplaceBack) xs) d r d' ↔
    r = .ok () ∧ d' = { d with tasks := d.tasks ++ List.replicate xs.length [] } := by
  induction xs generalizing d with
  | nil =>
    rw [List.length_nil, List.replicate_zero, List.append_nil]
    exact Iff.rfl
  | cons x xs ih =>
    refine (yields_act (r := ()) fun _ _ => ⟨fun h => ⟨rfl, h⟩, And.right⟩).trans ?_
    rw [Prog.bind_ret, ih, List.append_assoc, List.length_cons, List.replicate_succ, List.singleton_append]

theorem yields_attempt {o : Op F} {out : Except (Raised ε) (Option Unit)} :
    Yields step (attempt o) d out d' ↔ ∃ r : Except (Raised ε) Unit, out = r.map some ∧ Allows o r d d' := by
  have hmap {o : Op F} {p : Prog (accesses F ε) Unit} {out : Except (Raised ε) (Option Unit)}
      (hp : ∀ r, Yields step p d r d' ↔ Allows o r d d') :
      Yields step (p.bind fun b => .ret (some b)) d out d' ↔
        ∃ r : Except (Raised ε) Unit, out = r.map some ∧ Allows o r d d' := by
    rw [yields_some]
    simp only [hp]
  cases o with
  | pushOncef i f =>
    exact hmap (o := .pushOncef i f) fun r => yields_execLocked (g := fun _ => true)
      (yields_push (b := ()) (fun _ _ => ⟨fun h => ⟨rfl, h⟩, And.right⟩) rfl)
  | pushOnceb i f =>
    exact hmap (o := .pushOnceb i f) fun r => yields_execLocked (g := fun _ => true)
      (yields_push (b := ()) (fun _ _ => ⟨fun h => ⟨rfl, h⟩, And.right⟩) rfl)
  | pushf i f =>
    exact hmap (o := .pushf i f) fun r => yields_execLocked (g := fun _ => true)
      (yields_push (b := ()) (fun _ _ => ⟨fun h => ⟨rfl, h⟩, And.right⟩) rfl)
  | pushb i f =>
    exact hmap (o := .pushb i f) fun r => yields_execLocked (g := fun _ => true)
      (yields_push (b := ()) (fun _ _ => ⟨fun h => ⟨rfl, h⟩, And.right⟩) rfl)
  | popf i =>
    refine hmap (o := .popf i) fun r => yields_execLocked (g := fun s => !s.isEmpty)
      (yields_pop (fun _ _ => Iff.rfl) ?_)
    cases (d.session i).isEmpty <;> rfl
  | popb i =>
    refine hmap (o := .popb i) fun r => yields_execLocked (g := fun s => !s.isEmpty)
      (yields_pop (fun _ _ => Iff.rfl) ?_)
    cases (d.session i).isEmpty <;> rfl
  | newSession n =>
    refine hmap (o := .newSession n) fun r => yields_newSession.trans ?_
    rw [List.length_range]
    exact Iff.rfl
  | run => exact hmap (o := .run) fun r => yields_run

end

/-- The runner with its mutex. -/
abbrev monitor (F ε : Type) : Monitor where
  B := accesses F ε
  δ := Members F
  step := step
  Op := Op F
  Out _ := Unit
  method o :=
    { shared := false
      attempt := attempt o
      wake := .nobody
      waits := fun h => by
        obtain ⟨r, hr, -⟩ := yields_attempt.mp h
        cases r <;> cases hr
      reads := nofun }

theorem effect_iff {o : Op F} {d d' : Members F} {r : Except (Raised ε) Unit} :
    ((monitor F ε).method o).Effect d r d' ↔ Allows o r d d' := by
  refine yields_attempt.trans ?_
  constructor
  · rintro ⟨q, hq, h⟩
    cases r <;> cases q <;> cases hq <;> exact h
  · intro h
    exact ⟨r, rfl, h⟩

/-! ## The books -/

section

variable [DecidableEq F] {t : Task F} {d d' : Members F} {r : Except (Raised ε) Unit}

/-- How often a task is in the sessions. -/
def Members.waiting (d : Members F) (t : Task F) : Nat := d.tasks.flatten.count t

/-- How often it was called and has returned, if that takes it out. -/
def Members.done (d : Members F) (t : Task F) : Nat := if t.once then d.invoked.count (t, true) else 0

theorem stays_count {u : Task F} : u.stays.count t = if u = t ∧ t.once = false then 1 else 0 := by
  unfold Task.stays
  by_cases hu : u = t
  · subst hu
    cases u.once <;> simp
  · rw [if_neg fun h : u = t ∧ t.once = false => hu h.1]
    cases u.once <;> simp [hu]

theorem Sweeps.conserves {s s' : List (Task F)} {o : Option ε} {l : List (Task F × Bool)} (h : Sweeps s o s' l) :
    s.count t = s'.count t + if t.once then l.count (t, true) else 0 := by
  induction h with
  | nil => simp
  | fails u ts e => simp
  | @goes u ts ts' o l _ ih =>
    rw [List.count_cons, List.count_append, stays_count, List.count_cons, ih]
    by_cases hu : u = t
    · subst hu
      cases honce : u.once <;> simp <;> omega
    · simp [hu]

theorem Passes.conserves {ss ss' : List (List (Task F))} {o : Option ε} {l : List (Task F × Bool)}
    (h : Passes ss o ss' l) :
    ss.flatten.count t = ss'.flatten.count t + if t.once then l.count (t, true) else 0 := by
  induction h with
  | nil => simp
  | fails hs =>
    rw [List.flatten_cons, List.flatten_cons, List.count_append, List.count_append, hs.conserves]
    omega
  | goes hs _ ih =>
    rw [List.flatten_cons, List.flatten_cons, List.count_append, List.count_append, List.count_append, hs.conserves, ih]
    split <;> omega

/-- What changing one session does to the number of times a task is there. -/
theorem waiting_modify {i : Nat} {f : List (Task F) → List (Task F)} (hi : i < d.tasks.length) :
    (d.tasks.modify i f).flatten.count t + (d.session i).count t = d.waiting t + (f (d.session i)).count t := by
  obtain ⟨tasks, l⟩ := d
  have hsplit : tasks = tasks.take i ++ tasks[i] :: tasks.drop (i + 1) := by simp
  have hlen : (tasks.take i).length = i := List.length_take_of_le hi.le
  unfold Members.waiting
  generalize tasks.take i = pre at hsplit hlen
  generalize tasks.drop (i + 1) = post at hsplit
  generalize tasks[i] = x at hsplit
  subst hsplit hlen
  rw [modify_at, session_at]
  simp only [List.flatten_append, List.flatten_cons, List.count_append]
  omega

/-- What a method adds to the sessions, and what it takes from them without its having run. -/
def put : Op F → Except (Raised ε) Unit → List (Task F)
  | .pushOncef _ f, .ok _ => [⟨true, f⟩]
  | .pushOnceb _ f, .ok _ => [⟨true, f⟩]
  | .pushf _ f, .ok _ => [⟨false, f⟩]
  | .pushb _ f, .ok _ => [⟨false, f⟩]
  | _, _ => []

def got : Op F → Except (Raised ε) Unit → Members F → List (Task F)
  | .popf i, .ok _, d => (d.session i).head?.toList
  | .popb i, .ok _, d => (d.session i).getLast?.toList
  | _, _, _ => []

/-- The books after a change of one session. -/
theorem Locked.conserves {i : Nat} {g : List (Task F) → Bool} {f : List (Task F) → List (Task F)}
    {p q : Except (Raised ε) Unit → List (Task F)} (h : Locked i g f r d d')
    (herr : ∀ e, p (.error e) = [] ∧ q (.error e) = [])
    (hok : g (d.session i) = true →
      (d.session i).count t + (p (.ok ())).count t = (q (.ok ())).count t + (f (d.session i)).count t)
    (hempty : g (d.session i) = false → f (d.session i) = d.session i) :
    d.waiting t + d.done t + (p r).count t = (q r).count t + (d'.waiting t + d'.done t) := by
  unfold Locked at h
  by_cases hi : d.tasks.length ≤ i
  · rw [if_pos hi] at h
    obtain ⟨rfl, rfl⟩ := h
    rw [(herr _).1, (herr _).2, List.count_nil]
    omega
  · rw [if_neg hi] at h
    obtain ⟨rfl, rfl⟩ := h
    have hmodify := waiting_modify (t := t) (f := f) (not_le.mp hi)
    show d.waiting t + d.done t + _ = _ + ((d.tasks.modify i f).flatten.count t + d.done t)
    cases hg : g (d.session i) with
    | true =>
      have hcount := hok hg
      rw [if_pos rfl]
      omega
    | false =>
      rw [if_neg Bool.false_ne_true, (herr _).1, (herr _).2, List.count_nil]
      rw [hempty hg] at hmodify
      omega

theorem Allows.conserves {o : Op F} (h : Allows o r d d') :
    d.waiting t + d.done t + (put o r).count t = (got o r d).count t + (d'.waiting t + d'.done t) := by
  have hfront {i : Nat} {u : Task F} {p : Except (Raised ε) Unit → List (Task F)}
      (hl : Locked i (fun _ => true) (u :: ·) r d d') (herr : ∀ e, p (.error e) = []) (hp : p (.ok ()) = [u]) :
      d.waiting t + d.done t + (p r).count t = 0 + (d'.waiting t + d'.done t) := by
    refine hl.conserves (q := fun _ => []) (fun e => ⟨herr e, rfl⟩) (fun _ => ?_) fun hf => by cases hf
    rw [hp, List.count_nil, List.count_singleton, List.count_cons]
    omega
  have hback {i : Nat} {u : Task F} {p : Except (Raised ε) Unit → List (Task F)}
      (hl : Locked i (fun _ => true) (· ++ [u]) r d d') (herr : ∀ e, p (.error e) = []) (hp : p (.ok ()) = [u]) :
      d.waiting t + d.done t + (p r).count t = 0 + (d'.waiting t + d'.done t) := by
    refine hl.conserves (q := fun _ => []) (fun e => ⟨herr e, rfl⟩) (fun _ => ?_) fun hf => by cases hf
    rw [hp, List.count_nil, List.count_append, Nat.zero_add]
  cases o with
  | pushOncef i f => exact hfront (p := put (.pushOncef i f)) h (fun _ => rfl) rfl
  | pushOnceb i f => exact hback (p := put (.pushOnceb i f)) h (fun _ => rfl) rfl
  | pushf i f => exact hfront (p := put (.pushf i f)) h (fun _ => rfl) rfl
  | pushb i f => exact hback (p := put (.pushb i f)) h (fun _ => rfl) rfl
  | popf i =>
    have hl : Locked i (fun s => !s.isEmpty) List.tail r d d' := h
    refine hl.conserves (p := fun _ => []) (q := fun r => got (.popf i) r d) (fun e => ⟨rfl, rfl⟩) (fun hs => ?_)
      fun hs => ?_
    · show (d.session i).count t + 0 = (d.session i).head?.toList.count t + (d.session i).tail.count t
      cases hd : d.session i with
      | nil =>
        rw [hd] at hs
        cases hs
      | cons x l =>
        rw [List.count_cons, List.head?_cons, Option.toList_some, List.tail_cons, List.count_singleton]
        omega
    · cases hd : d.session i with
      | nil => rfl
      | cons x l =>
        rw [hd] at hs
        cases hs
  | popb i =>
    have hl : Locked i (fun s => !s.isEmpty) List.dropLast r d d' := h
    refine hl.conserves (p := fun _ => []) (q := fun r => got (.popb i) r d) (fun e => ⟨rfl, rfl⟩) (fun hs => ?_)
      fun hs => ?_
    · show (d.session i).count t + 0 = (d.session i).getLast?.toList.count t + (d.session i).dropLast.count t
      rcases List.eq_nil_or_concat (d.session i) with hd | ⟨l, x, hd⟩
      · rw [hd] at hs
        cases hs
      · rw [hd, List.concat_eq_append, List.count_append, List.getLast?_concat, List.dropLast_concat, Option.toList_some]
        omega
    · cases hd : d.session i with
      | nil => rfl
      | cons x l =>
        rw [hd] at hs
        cases hs
  | newSession n =>
    obtain ⟨rfl, rfl⟩ := h
    show d.waiting t + d.done t + 0 = 0 + ((d.tasks ++ List.replicate n []).flatten.count t + d.done t)
    rw [List.flatten_append, List.count_append, List.flatten_replicate_nil, List.count_nil]
    show _ = 0 + (d.waiting t + 0 + d.done t)
    omega
  | run =>
    obtain ⟨o, ss', k, hpass, rfl, rfl⟩ := h
    have hcount := hpass.conserves (t := t)
    show d.tasks.flatten.count t + d.done t + 0 = 0 + (ss'.flatten.count t + _)
    unfold Members.done
    rw [hcount, List.count_append]
    split <;> omega

variable {E : Sig} {Tid δ : Type} (clients : Tid → Prog ((monitor F ε).calls E) Unit)
  (around : Tid → (e : E.Act) → E.Res e → δ → δ → Prop)

omit [DecidableEq F] in
/-- A runner whose methods are single steps. -/
def serial : Sys ((monitor F ε).calls E) Tid (Members F × δ) :=
  Monitor.specified clients around fun o d r d' => Allows o r d d'

variable {clients} {around} {v : δ}

/-- What a call put into the sessions. -/
def putBy (e : Event ((monitor F ε).calls E) Tid (Members F × δ)) : List (Task F) :=
  match e with
  | ⟨_, .op o, r, _, _⟩ => put o r
  | _ => []

/-- What it took from them. -/
def gotBy (e : Event ((monitor F ε).calls E) Tid (Members F × δ)) : List (Task F) :=
  match e with
  | ⟨_, .op o, r, s, _⟩ => got o r s.1
  | _ => []

/-- The tasks pushed are those popped, those still there, and those that were to run once and have returned. -/
theorem serial_conserves [DecidableEq Tid] {tr : List (Event ((monitor F ε).calls E) Tid (Members F × δ))}
    {c : Config ((monitor F ε).calls E) Tid (Members F × δ)} (h : (serial clients around).Run (⟨[], []⟩, v) tr c)
    (t : Task F) :
    (tr.flatMap putBy).count t = (tr.flatMap gotBy).count t + c.st.1.waiting t + c.st.1.done t := by
  induction h with
  | start =>
    show 0 = 0 + 0 + if t.once then 0 else 0
    rw [ite_self]
  | @call tr c s' a k u r _ _ hs ih =>
    rw [List.flatMap_append, List.flatMap_append, List.count_append, List.count_append, List.flatMap_singleton,
      List.flatMap_singleton, ih]
    cases a with
    | op o =>
      have hstep := Allows.conserves (t := t) hs.1
      show _ + (put o r).count t = _ + (got o r c.st.1).count t + s'.1.waiting t + s'.1.done t
      omega
    | env e =>
      show _ + 0 = _ + 0 + s'.1.waiting t + s'.1.done t
      rw [show s'.1 = c.st.1 from hs.1]
      omega
  | again _ _ _ ih => exact ih

end

end TaskRunner

section

open TaskRunner

variable {F ε : Type} {E : Sig} {Tid δ : Type} [DecidableEq F] [DecidableEq Tid]
  {clients : Tid → Prog ((monitor F ε).calls E) Unit} {around : Tid → (e : E.Act) → E.Res e → δ → δ → Prop} {v : δ}

/-- **Tasks are neither lost nor repeated.** Whatever the threads do with the runner and however its tasks end, each
run of the code is matched by a run in which every method is a single step, with the same answers or exceptions. In
it every task that was pushed is in the sessions, was popped, or was to run once and has returned, and as often as
it was pushed. So a task pushed once with `push_oncef` or `push_onceb` returns at most once. -/
theorem runner_linearizable {bound : Nat}
    {tr : List (Event ((monitor F ε).micro E) Tid ((monitor F ε).State Tid δ))}
    {c : Config ((monitor F ε).micro E) Tid ((monitor F ε).State Tid δ)}
    (h : (Monitor.locking clients around bound).Run (.open (⟨[], []⟩ : Members F) v) tr c) :
    ∃ tr' c', (serial clients around).Run (⟨[], []⟩, v) tr' c' ∧ Monitor.Fits c.st c'.st ∧
      (∀ t, (Monitor.refinement clients around bound).Stands t (c.st, c'.st) (c.prog t) (c'.prog t)) ∧
      ∀ t : TaskRunner.Task F, (tr'.flatMap putBy).count t =
        (tr'.flatMap gotBy).count t + c'.st.1.waiting t + c'.st.1.done t := by
  obtain ⟨tr', c', hrun, hfit, hstands⟩ := Monitor.refines_spec (fun _ _ _ _ => effect_iff) h
  exact ⟨tr', c', hrun, hfit, hstands, serial_conserves hrun⟩

/-- One thread makes a session and pushes a task that is to run once; the other runs the tasks in between and afterwards:
first there are none, and then it fails in this one. -/
theorem runner_linearizable_fails :
    ∃ (clients : Bool → Prog ((monitor Nat Unit).calls Monitor.nothing) Unit)
      (tr : List (Event ((monitor Nat Unit).micro Monitor.nothing) Bool ((monitor Nat Unit).State Bool Unit)))
      (c : Config ((monitor Nat Unit).micro Monitor.nothing) Bool ((monitor Nat Unit).State Bool Unit)),
    (Monitor.locking clients Monitor.inert 1).Run (.open (⟨[], []⟩ : Members Nat) ()) tr c ∧
      (c.prog true = .ret () ∧ c.prog false = .ret ()) ∧
      ∃ tr' c', (serial clients Monitor.inert).Run (⟨[], []⟩, ()) tr' c' ∧
        c'.st.1 = ⟨[[⟨true, 7⟩]], [(⟨true, 7⟩, false)]⟩ ∧
        (tr'.flatMap putBy).count ⟨true, 7⟩ = (tr'.flatMap gotBy).count ⟨true, 7⟩ + 1 := by
  let clients : Bool → Prog ((monitor Nat Unit).calls Monitor.nothing) Unit := fun b =>
    if b then .act (.op (.newSession 1)) fun _ => .act (.op (.pushOnceb 0 7)) fun _ => .ret ()
    else .act (.op .run) fun _ => .act (.op .run) fun _ => .ret ()
  let code := Monitor.locking (O := monitor Nat Unit) (ε := Unit) clients Monitor.inert 1
  let state (d : Members Nat) (h : Option Bool) : (monitor Nat Unit).State Bool Unit := ⟨d, h, ∅, ∅, ()⟩
  let none₀ : Members Nat := ⟨[], []⟩
  let none₁ : Members Nat := ⟨[[]], []⟩
  let pushed : Members Nat := ⟨[[⟨true, 7⟩]], []⟩
  let failed : Members Nat := ⟨[[⟨true, 7⟩]], [(⟨true, 7⟩, false)]⟩
  have hlock (b : Bool) (d : Members Nat) : code.step b .lock () (state d none) (state d (some b)) := ⟨rfl, rfl, rfl⟩
  have hunlock (b : Bool) (d : Members Nat) : code.step b .unlock () (state d (some b)) (state d none) := rfl
  have hsession : code.step true (.access .emplaceBack) () (state none₀ (some true)) (state none₁ (some true)) :=
    ⟨_, rfl, rfl⟩
  have hcount (b : Bool) (d : Members Nat) :
      code.step b (.access .count) d.tasks.length (state d (some b)) (state d (some b)) := ⟨_, ⟨rfl, rfl⟩, rfl⟩
  have hpush : code.step true (.access (.pushBack 0 ⟨true, 7⟩)) () (state none₁ (some true)) (state pushed (some true)) :=
    ⟨_, rfl, rfl⟩
  have hlength : code.step false (.access (.length 0)) (1 : Nat) (state pushed (some false)) (state pushed (some false)) :=
    ⟨_, ⟨rfl, rfl⟩, rfl⟩
  have htask : code.step false (.access (.task 0 0)) (some ⟨true, 7⟩ : Option (TaskRunner.Task Nat))
      (state pushed (some false)) (state pushed (some false)) := ⟨_, ⟨rfl, rfl⟩, rfl⟩
  have hinvoke : code.step false (.access (.invoke ⟨true, 7⟩)) (.error () : Except Unit Unit)
      (state pushed (some false)) (state failed (some false)) := ⟨_, rfl, rfl⟩
  have hstart : code.Run (state none₀ none) [] (code.start (state none₀ none)) := .start
  have hnothing : code.step false (.access (.length 0)) (0 : Nat) (state none₁ (some false)) (state none₁ (some false)) :=
    ⟨_, ⟨rfl, rfl⟩, rfl⟩
  have hmade := ((hstart.call true () rfl (hlock true none₀)).call true () rfl hsession).call true () rfl
    (hunlock true none₁)
  have hidle := ((hmade.call false () rfl (hlock false none₁)).call false _ rfl (hcount false none₁)).call false _ rfl
    hnothing |>.call false () rfl (hunlock false none₁)
  have hpushed := ((hidle.call true () rfl (hlock true none₁)).call true _ rfl (hcount true none₁)).call true () rfl hpush
    |>.call true () rfl (hunlock true pushed)
  have hran := ((hpushed.call false () rfl (hlock false pushed)).call false _ rfl (hcount false pushed)).call false _ rfl
    hlength
  have hfail := ((hran.call false _ rfl htask).call false _ rfl hinvoke).call false () rfl (hunlock false failed)
  obtain ⟨tr', c', hserial, hfit, -, hbooks⟩ := runner_linearizable hfail
  have hdata : c'.st.1 = failed := (hfit.data rfl).symm
  refine ⟨clients, _, _, hfail, ⟨rfl, rfl⟩, tr', c', hserial, hdata, ?_⟩
  rw [hbooks, hdata]
  rfl

end

end ChatChannel
