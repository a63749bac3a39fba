import Mathlib.Data.List.Basic
import Mathlib.Algebra.BigOperators.Group.Finset.Piecewise
import Mathlib.Algebra.GroupWithZero.Nat
import Mathlib.Algebra.Order.BigOperators.Group.Finset
import Mathlib.Logic.Function.Basic

/-!
# Several writers on one channel

Writers cut the encodings of their items into pieces, and a schedule puts the pieces of all writers
in one order. If nobody is interrupted in the middle of an item, what comes out are the encodings of
the items in some interleaving (`Uninterrupted.shuffle`). The proof takes the items off the front of
the schedule, one after the other: the writer that comes first goes on until its item is complete
(`front_item`).

How a writer may cut an item is a relation `R` between items and pieces.
-/

set_option autoImplicit false

namespace Interleaving

variable {ι α β φ : Type} [DecidableEq ι]

/-- What writer `i` contributes to a schedule. -/
def of (i : ι) (es : List (ι × α)) : List α :=
  es.filterMap fun e => if e.1 = i then some e.2 else none

/-- The pieces of an item are not empty, and put together they are its encoding. -/
structure Pieces (enc : φ → List β) (R : φ → List (List β) → Prop) : Prop where
  flatten : ∀ x ps, R x ps → ps.flatten = enc x
  nonempty : ∀ x ps, R x ps → ∀ p ∈ ps, p ≠ []
  proper : ∀ x, enc x ≠ []

/-- Items cut one after the other. -/
inductive Cut (R : φ → List (List β) → Prop) : List φ → List (List β) → Prop
  | nil : Cut R [] []
  | cons {x : φ} {xs : List φ} {ps qs : List (List β)} : R x ps → Cut R xs qs →
      Cut R (x :: xs) (ps ++ qs)

/-- Whenever a writer writes a piece, what each of the others has written are whole items. -/
def Uninterrupted (R : φ → List (List β) → Prop) (items : ι → List φ) (es : List (ι × List β)) :
    Prop :=
  ∀ es₁ i p es₂, es = es₁ ++ (i, p) :: es₂ → ∀ j, j ≠ i →
    ∃ xs ys, items j = xs ++ ys ∧ Cut R xs (of j es₁)

variable {enc : φ → List β} {R : φ → List (List β) → Prop} {i j : ι}

@[simp] theorem of_nil (i : ι) : of i ([] : List (ι × α)) = [] := rfl

@[simp] theorem of_append (i : ι) (es es' : List (ι × α)) : of i (es ++ es') = of i es ++ of i es' :=
  List.filterMap_append

@[simp] theorem of_cons_self (i : ι) (a : α) (es : List (ι × α)) :
    of i ((i, a) :: es) = a :: of i es := by
  simp [of]

theorem of_cons_ne (h : j ≠ i) (a : α) (es : List (ι × α)) : of j ((i, a) :: es) = of j es := by
  simp [of, Ne.symm h]

/-- What the writers contribute, added up writer by writer. -/
theorem sum_of (f : α → Nat) {T : Finset ι} {es : List (ι × α)} (hT : ∀ e ∈ es, e.1 ∈ T) :
    ∑ i ∈ T, ((of i es).map f).sum = (es.map fun e => f e.2).sum := by
  induction es with
  | nil => simp
  | cons e es ih =>
    obtain ⟨u, a⟩ := e
    obtain ⟨hu, hes⟩ := List.forall_mem_cons.mp hT
    have hone (i : ι) : ((of i ((u, a) :: es)).map f).sum =
        (if u = i then f a else 0) + ((of i es).map f).sum := by
      by_cases h : u = i
      · subst h
        rw [of_cons_self, if_pos rfl, List.map_cons, List.sum_cons]
      · rw [of_cons_ne (Ne.symm h), if_neg h, Nat.zero_add]
    rw [Finset.sum_congr rfl fun i _ => hone i, Finset.sum_add_distrib, Finset.sum_ite_eq, if_pos hu, ih hes,
      List.map_cons, List.sum_cons]

/-- If no writer contributes more here than there, and one of them less, then so do all together. -/
theorem sum_lt {f : α → Nat} {g : β → Nat} {es : List (ι × α)} {ws : List (ι × β)} {i : ι}
    (hle : ∀ j, ((of j es).map f).sum ≤ ((of j ws).map g).sum)
    (hlt : ((of i es).map f).sum < ((of i ws).map g).sum) :
    (es.map fun e => f e.2).sum < (ws.map fun e => g e.2).sum := by
  let T : Finset ι := (es.map Prod.fst ++ ws.map Prod.fst).toFinset
  have hes (e) (he : e ∈ es) : e.1 ∈ T :=
    List.mem_toFinset.mpr (List.mem_append_left _ (List.mem_map_of_mem he))
  have hws (e) (he : e ∈ ws) : e.1 ∈ T :=
    List.mem_toFinset.mpr (List.mem_append_right _ (List.mem_map_of_mem he))
  have hi : i ∈ T := by
    by_contra hi
    have hnone : of i ws = [] := by
      refine List.filterMap_eq_nil_iff.mpr fun e he => if_neg fun h => hi ?_
      rw [← h]
      exact hws e he
    rw [hnone] at hlt
    exact Nat.not_lt_zero _ hlt
  rw [← sum_of f hes, ← sum_of g hws]
  exact Finset.sum_lt_sum (fun j _ => hle j) ⟨i, hi, hlt⟩

/-- A stretch of one writer. -/
def solo (i : ι) (as : List α) : List (ι × α) := as.map fun a => (i, a)

omit [DecidableEq ι] in
@[simp] theorem map_solo (i : ι) (as : List α) : (solo i as).map Prod.snd = as := by
  simp [solo, Function.comp_def]

@[simp] theorem of_solo_self (i : ι) : ∀ as : List α, of i (solo i as) = as
  | [] => rfl
  | a :: as => by
    have ih := of_solo_self i as
    simp only [solo, List.map_cons, of_cons_self, List.cons.injEq, true_and]
    exact ih

theorem of_solo_ne (h : j ≠ i) : ∀ as : List α, of j (solo i as) = []
  | [] => rfl
  | a :: as => by
    have ih := of_solo_ne h as
    rw [solo, List.map_cons, of_cons_ne h]
    exact ih

/-! ## Cuts -/

theorem cut_nil {ps : List (List β)} : Cut R [] ps ↔ ps = [] := by
  constructor
  · intro h
    cases h
    rfl
  · rintro rfl
    exact .nil

/-- Where an item ends is determined by its encoding, as no piece is empty. -/
theorem eq_of_flatten : ∀ {ps qs rs ts : List (List β)}, (∀ p ∈ ps, p ≠ []) → (∀ q ∈ qs, q ≠ []) →
    ps ++ rs = qs ++ ts → ps.flatten = qs.flatten → ps = qs
  | [], [], _, _, _, _, _, _ => rfl
  | [], q :: qs, _, _, _, hq, _, h => by
    have hnil : q = [] := by
      rw [List.flatten_nil, List.flatten_cons] at h
      exact (List.append_eq_nil_iff.mp h.symm).1
    exact absurd hnil (hq q List.mem_cons_self)
  | p :: ps, [], _, _, hp, _, _, h => by
    have hnil : p = [] := by
      rw [List.flatten_nil, List.flatten_cons] at h
      exact (List.append_eq_nil_iff.mp h).1
    exact absurd hnil (hp p List.mem_cons_self)
  | p :: ps, q :: qs, rs, ts, hp, hq, hcat, h => by
    rw [List.cons_append, List.cons_append, List.cons.injEq] at hcat
    obtain ⟨rfl, hcat⟩ := hcat
    rw [List.flatten_cons, List.flatten_cons] at h
    rw [eq_of_flatten (fun a ha => hp a (List.mem_cons_of_mem _ ha))
      (fun a ha => hq a (List.mem_cons_of_mem _ ha)) hcat (List.append_cancel_left h)]

/-- The writer goes on until it has written `ps`, or another one comes between. -/
theorem front : ∀ {ps qs : List α} {es : List (ι × α)}, of i es = ps ++ qs →
    (∃ es', es = solo i ps ++ es') ∨
      ∃ m j q es', m < ps.length ∧ j ≠ i ∧ es = solo i (ps.take m) ++ (j, q) :: es'
  | [], _, es, _ => .inl ⟨es, rfl⟩
  | p :: ps, qs, [], h => by simp at h
  | p :: ps, qs, (k, q) :: es, h => by
    by_cases hk : k = i
    · replace hk := hk.symm
      subst hk
      rw [of_cons_self, List.cons_append, List.cons.injEq] at h
      obtain ⟨rfl, hrest⟩ := h
      rcases front hrest with ⟨es', rfl⟩ | ⟨m, j, q', es', hm, hj, rfl⟩
      · exact .inl ⟨es', rfl⟩
      · exact .inr ⟨m + 1, j, q', es', Nat.succ_lt_succ hm, hj, rfl⟩
    · exact .inr ⟨0, k, q, es, Nat.succ_pos _, hk, rfl⟩

/-- The writer that comes first writes its first item as a whole, or is interrupted in it. -/
theorem front_item {items : ι → List φ} {p : List β} {es : List (ι × List β)}
    (hcut : ∀ j, Cut R (items j) (of j ((i, p) :: es))) :
    ∃ x xs ps, items i = x :: xs ∧ R x ps ∧
      ((∃ es', (i, p) :: es = solo i ps ++ es') ∨
        ∃ m j q es', 0 < m ∧ m < ps.length ∧ j ≠ i ∧
          (i, p) :: es = solo i (ps.take m) ++ (j, q) :: es') := by
  have hi := hcut i
  generalize hall : of i ((i, p) :: es) = all at hi
  rw [of_cons_self] at hall
  generalize hitems : items i = is at hi
  cases hi with
  | nil => cases hall
  | @cons x xs ps qs hx _ =>
    refine ⟨x, xs, ps, rfl, hx, ?_⟩
    have hof : of i ((i, p) :: es) = ps ++ qs := by rw [of_cons_self, hall]
    rcases front hof with hwhole | ⟨m, j, q, es', hm, hj, heq⟩
    · exact .inl hwhole
    · refine .inr ⟨m, j, q, es', ?_, hm, hj, heq⟩
      by_contra h0
      obtain rfl : m = 0 := by omega
      rw [List.take_zero] at heq
      exact hj (congrArg Prod.fst (List.cons.inj heq).1).symm

section

variable (hR : Pieces enc R)

include hR

theorem Pieces.ne_nil {x : φ} {ps : List (List β)} (hx : R x ps) : ps ≠ [] := by
  rintro rfl
  exact hR.proper x (hR.flatten x [] hx).symm

theorem Pieces.empty {xs : List φ} (h : Cut R xs []) : xs = [] := by
  generalize hall : ([] : List (List β)) = all at h
  cases h with
  | nil => rfl
  | cons hx _ => exact absurd (List.append_eq_nil_iff.mp hall.symm).1 (hR.ne_nil hx)

/-- Taking the first item off a cut. -/
theorem Pieces.uncons {x : φ} {xs : List φ} {ps qs : List (List β)}
    (h : Cut R (x :: xs) (ps ++ qs)) (hx : R x ps) : Cut R xs qs := by
  generalize hall : ps ++ qs = all at h
  cases h with
  | @cons _ _ ps' qs' hx' hrest =>
    obtain rfl := eq_of_flatten (hR.nonempty x ps hx) (hR.nonempty x ps' hx') hall
      ((hR.flatten x ps hx).trans (hR.flatten x ps' hx').symm)
    rw [List.append_cancel_left hall]
    exact hrest

/-- A writer that has begun an item and not completed it is not between two items. -/
theorem Pieces.not_cut_part {x : φ} {xs : List φ} {ps : List (List β)} {m : Nat} (hx : R x ps)
    (hm : 0 < m) (hlt : m < ps.length) : ∀ zs ts, x :: xs = zs ++ ts → ¬ Cut R zs (ps.take m) := by
  intro zs ts hsplit hcut
  cases zs with
  | nil =>
    have hlen := congrArg List.length (cut_nil.mp hcut)
    rw [List.length_take, List.length_nil] at hlen
    omega
  | cons z zs =>
    obtain ⟨rfl, -⟩ := List.cons.inj hsplit
    generalize hall : ps.take m = all at hcut
    cases hcut with
    | @cons _ _ qs rs hx' _ =>
      have hcat : qs ++ (rs ++ ps.drop m) = ps ++ [] := by
        rw [← List.append_assoc, ← hall, List.take_append_drop, List.append_nil]
      have heq := eq_of_flatten (hR.nonempty x qs hx') (hR.nonempty x ps hx) hcat
        ((hR.flatten x qs hx').trans (hR.flatten x ps hx).symm)
      have hlen := congrArg List.length hall
      rw [List.length_append, List.length_take, heq] at hlen
      omega

/-! ## The front of a schedule -/

/-- Taking the first item off the front. -/
theorem cut_tail {items : ι → List φ} {es : List (ι × List β)} {x : φ} {xs : List φ}
    {ps : List (List β)} (hcut : ∀ j, Cut R (items j) (of j (solo i ps ++ es)))
    (hi : items i = x :: xs) (hx : R x ps) (j : ι) :
    Cut R (Function.update items i xs j) (of j es) := by
  have hj := hcut j
  rw [of_append] at hj
  by_cases hji : j = i
  · subst hji
    rw [of_solo_self, hi] at hj
    rw [Function.update_self]
    exact hR.uncons hj hx
  · rw [of_solo_ne hji, List.nil_append] at hj
    rwa [Function.update_of_ne hji]

/-- What is left of the items when `i` has written its first one. -/
theorem Uninterrupted.tail {items : ι → List φ} {es : List (ι × List β)} {x : φ} {xs : List φ}
    {ps : List (List β)} (h : Uninterrupted R items (solo i ps ++ es)) (hi : items i = x :: xs)
    (hx : R x ps) : Uninterrupted R (Function.update items i xs) es := by
  intro es₁ k p es₂ heq j hj
  obtain ⟨zs, ys, hsplit, hcut⟩ := h (solo i ps ++ es₁) k p es₂ (by rw [heq, List.append_assoc]) j hj
  rw [of_append] at hcut
  by_cases hji : j = i
  · subst hji
    rw [of_solo_self] at hcut
    rw [hi] at hsplit
    cases zs with
    | nil => exact absurd (List.append_eq_nil_iff.mp (cut_nil.mp hcut)).1 (hR.ne_nil hx)
    | cons z zs =>
      obtain ⟨rfl, hsplit'⟩ := List.cons.inj hsplit
      exact ⟨zs, ys, by rw [Function.update_self]; exact hsplit', hR.uncons hcut hx⟩
  · rw [of_solo_ne hji, List.nil_append] at hcut
    exact ⟨zs, ys, by rw [Function.update_of_ne hji]; exact hsplit, hcut⟩

omit hR in
/-- And what this says about the whole schedule. -/
theorem Uninterrupted.of_tail {items : ι → List φ} {es : List (ι × List β)} {x : φ} {xs : List φ}
    {ps : List (List β)} (h : Uninterrupted R (Function.update items i xs) es)
    (hi : items i = x :: xs) (hx : R x ps) : Uninterrupted R items (solo i ps ++ es) := by
  have later : ∀ es' k p es₂, es = es' ++ (k, p) :: es₂ → ∀ j, j ≠ k →
      ∃ zs ys, items j = zs ++ ys ∧ Cut R zs (of j (solo i ps ++ es')) := by
    intro es' k p es₂ hes j hj
    obtain ⟨zs, ys, hsplit, hcut⟩ := h es' k p es₂ hes j hj
    rw [of_append]
    by_cases hji : j = i
    · subst hji
      rw [Function.update_self] at hsplit
      rw [of_solo_self]
      exact ⟨x :: zs, ys, by rw [hi, hsplit]; rfl, .cons hx hcut⟩
    · rw [Function.update_of_ne hji] at hsplit
      rw [of_solo_ne hji, List.nil_append]
      exact ⟨zs, ys, hsplit, hcut⟩
  intro es₁ k p es₂ heq j hj
  rcases List.append_eq_append_iff.mp heq with ⟨es', rfl, hrest⟩ | ⟨cs, hsolo, hrest⟩
  · exact later es' k p es₂ hrest j hj
  · cases cs with
    | nil =>
      rw [List.append_nil] at hsolo
      subst hsolo
      have hfirst := later [] k p es₂ hrest.symm j hj
      rwa [List.append_nil] at hfirst
    | cons c cs =>
      -- the piece is one of the first item's: the others have not written anything
      obtain ⟨rfl, -⟩ := List.cons.inj hrest
      have hki : k = i := by
        have hmem : (k, p) ∈ solo i ps := by
          rw [hsolo]
          simp
        obtain ⟨q, -, hq⟩ := List.mem_map.mp hmem
        exact (congrArg Prod.fst hq).symm
      subst hki
      have hpre := of_solo_ne hj ps
      rw [hsolo, of_append] at hpre
      rw [(List.append_eq_nil_iff.mp hpre).1]
      exact ⟨[], items j, rfl, .nil⟩

omit [DecidableEq ι] in
theorem length_tail {es : List (ι × List β)} {x : φ} {ps : List (List β)} (hx : R x ps) :
    es.length < (solo i ps ++ es).length := by
  have hpos := List.length_pos_iff.mpr (hR.ne_nil hx)
  rw [List.length_append, solo, List.length_map]
  omega

/-- **Nobody interrupted, nothing mixed.** -/
theorem Uninterrupted.shuffle {items : ι → List φ} {es : List (ι × List β)}
    (hcut : ∀ i, Cut R (items i) (of i es)) (hun : Uninterrupted R items es) :
    ∃ w : List (ι × φ), (∀ i, of i w = items i) ∧
      (es.map Prod.snd).flatten = ((w.map Prod.snd).map enc).flatten := by
  induction hn : es.length using Nat.strongRecOn generalizing items es with
  | ind n ih =>
    cases es with
    | nil => exact ⟨[], fun i => (hR.empty (hcut i)).symm, rfl⟩
    | cons e es =>
      obtain ⟨i, p⟩ := e
      obtain ⟨x, xs, ps, hi, hx, ⟨es', heq⟩ | ⟨m, j, q, es', hm, hlt, hj, heq⟩⟩ :=
        front_item hcut
      · rw [heq] at hcut hun hn ⊢
        have hlen : es'.length < n := hn ▸ length_tail hR hx
        obtain ⟨w, hw, hstream⟩ := ih _ hlen (cut_tail hR hcut hi hx) (hun.tail hR hi hx) rfl
        refine ⟨(i, x) :: w, fun j => ?_, ?_⟩
        · by_cases hji : j = i
          · subst hji
            rw [of_cons_self, hw, Function.update_self, hi]
          · rw [of_cons_ne hji, hw, Function.update_of_ne hji]
        · rw [List.map_append, List.flatten_append, map_solo, hR.flatten x ps hx, hstream]
          rfl
      · obtain ⟨zs, ys, hsplit, hcut'⟩ := hun _ j q es' heq i (Ne.symm hj)
        rw [of_solo_self] at hcut'
        exact absurd hcut' (hR.not_cut_part hx hm hlt zs ys (hi ▸ hsplit))

end

end Interleaving
