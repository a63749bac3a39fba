import Mathlib.Data.List.Basic

/-!
# Incremental decoding

A decoder that is given its input piece by piece keeps what it cannot use yet. `Look` is what it
does with the input it has: it waits for more, drops something, hands out an item or gives up.
`Drains` is the loop around it, and `Feeds` a sequence of pieces, each appended to what the loop
left of the ones before.

Two things make the pieces irrelevant. Either the decoder never takes a decision back when more
arrives (`Steady`), and then draining piece by piece is draining at once (`Feeds.drains`). Or the
input consists of encodings that the decoder recognises (`Codec`), and then every way to cut it
yields the encoded items (`Codec.feeds`); of a decoder that does odd things with other input
nothing more has to be known.
-/

set_option autoImplicit false

namespace Incremental

variable {β φ ε : Type}

/-- What a decoder does with its input. -/
inductive Look (β φ ε : Type)
  | wait
  | drop (rest : List β)
  | item (x : φ) (rest : List β)
  | fail (e : ε)

abbrev Decoder (β φ ε : Type) := List β → Look β φ ε

variable (d : Decoder β φ ε)

/-- The loop: the items handed out, how it ended (`none` if it waits), and what is left. -/
inductive Drains : List β → List φ → Option ε → List β → Prop
  | wait {acc : List β} : d acc = .wait → Drains acc [] none acc
  | fail {acc : List β} {e : ε} : d acc = .fail e → Drains acc [] (some e) acc
  | drop {acc rest left : List β} {xs : List φ} {o : Option ε} :
      d acc = .drop rest → Drains rest xs o left → Drains acc xs o left
  | item {acc rest left : List β} {x : φ} {xs : List φ} {o : Option ε} :
      d acc = .item x rest → Drains rest xs o left → Drains acc (x :: xs) o left

/-- Pieces that all went through, with the items each of them completed. -/
inductive Feeds : List β → List (List β) → List (List φ) → List β → Prop
  | nil (acc : List β) : Feeds acc [] [] acc
  | cons {acc piece rest left : List β} {pieces : List (List β)} {xs : List φ}
      {xss : List (List φ)} : Drains d (acc ++ piece) xs none rest →
      Feeds rest pieces xss left → Feeds acc (piece :: pieces) (xs :: xss) left

/-- Whatever is dropped or handed out is not empty. -/
structure Shrinks : Prop where
  drop : ∀ acc rest, d acc = .drop rest → rest.length < acc.length
  item : ∀ acc x rest, d acc = .item x rest → rest.length < acc.length

/-- Nothing that was decided changes when more arrives. -/
structure Steady : Prop where
  drop : ∀ acc rest more, d acc = .drop rest → d (acc ++ more) = .drop (rest ++ more)
  item : ∀ acc x rest more, d acc = .item x rest → d (acc ++ more) = .item x (rest ++ more)
  fail : ∀ acc e more, d acc = .fail e → d (acc ++ more) = .fail e

/-- A round drops something or hands something out, and `rest` is left. -/
def Gives (acc rest : List β) : Prop := d acc = .drop rest ∨ ∃ x, d acc = .item x rest

/-- Rounds lead from `acc` to `s`. -/
inductive Comes : List β → List β → Prop
  | refl (acc : List β) : Comes acc acc
  | head {acc rest s : List β} : Gives d acc rest → Comes rest s → Comes acc s

/-- The loop ends, and each of its rounds leaves it or makes the input shorter. -/
def Halts (acc : List β) : Prop :=
  (∃ xs o left, Drains d acc xs o left) ∧
    ∀ s rest, Comes d acc s → Gives d s rest → rest.length < s.length

/-- A part of an encoding that is not all of it. -/
def Unfinished (t b : List β) : Prop := t <+: b ∧ t ≠ b

/-- The decoder waits all through `t`. -/
def Stalled (t : List β) : Prop := ∀ s, s <+: t → d s = .wait

/-- The decoder knows the encodings of the good items. -/
structure Codec (enc : φ → List β) (Good : φ → Prop) : Prop where
  item : ∀ x more, Good x → d (enc x ++ more) = .item x more
  wait : ∀ x t, Good x → Unfinished t (enc x) → d t = .wait

variable {d} {acc more left left' : List β} {xs xs' : List φ} {o o' : Option ε}

/-! ## The loop -/

theorem Drains.det (h : Drains d acc xs o left) (h' : Drains d acc xs' o' left') :
    xs = xs' ∧ o = o' ∧ left = left' := by
  induction h generalizing xs' with
  | wait hd => cases h' <;> simp_all
  | fail hd => cases h' <;> simp_all
  | drop hd _ ih =>
    cases h' with
    | drop hd' h' =>
      rw [hd] at hd'
      cases hd'
      exact ih h'
    | _ hd' => simp [hd] at hd'
  | item hd _ ih =>
    cases h' with
    | item hd' h' =>
      rw [hd] at hd'
      cases hd'
      obtain ⟨rfl, rfl, rfl⟩ := ih h'
      exact ⟨rfl, rfl, rfl⟩
    | _ hd' => simp [hd] at hd'

theorem Drains.exists (hs : Shrinks d) (acc : List β) : ∃ xs o left, Drains d acc xs o left := by
  induction hn : acc.length using Nat.strongRecOn generalizing acc with
  | ind n ih =>
    subst hn
    cases hd : d acc with
    | wait => exact ⟨_, _, _, .wait hd⟩
    | fail e => exact ⟨_, _, _, .fail hd⟩
    | drop rest =>
      obtain ⟨xs, o, left, h⟩ := ih _ (hs.drop _ _ hd) rest rfl
      exact ⟨_, _, _, .drop hd h⟩
    | item x rest =>
      obtain ⟨xs, o, left, h⟩ := ih _ (hs.item _ _ _ hd) rest rfl
      exact ⟨_, _, _, .item hd h⟩

theorem Gives.det {rest rest' : List β} (h : Gives d acc rest) (h' : Gives d acc rest') :
    rest = rest' := by
  rcases h with h | ⟨x, h⟩ <;> rcases h' with h' | ⟨x', h'⟩ <;> simp_all

/-- A loop that ends does not come to a place that a round does not leave. -/
theorem Drains.not_stuck (h : Drains d acc xs o left) {s : List β} (hc : Comes d acc s) :
    ¬ Gives d s s := by
  have hself : ∀ {acc xs o left}, Drains d acc xs o left → ¬ Gives d acc acc := by
    intro acc xs o left h
    induction h with
    | wait hd => rintro (hg | ⟨x, hg⟩) <;> simp [hd] at hg
    | fail hd => rintro (hg | ⟨x, hg⟩) <;> simp [hd] at hg
    | drop hd _ ih =>
      intro hg
      obtain rfl := hg.det (.inl hd)
      exact ih hg
    | item hd _ ih =>
      intro hg
      obtain rfl := hg.det (.inr ⟨_, hd⟩)
      exact ih hg
  induction hc generalizing xs with
  | refl => exact hself h
  | head hg _ ih =>
    cases h with
    | wait hd => rcases hg with hg | ⟨x, hg⟩ <;> simp [hd] at hg
    | fail hd => rcases hg with hg | ⟨x, hg⟩ <;> simp [hd] at hg
    | drop hd h =>
      obtain rfl := hg.det (.inl hd)
      exact ih h
    | item hd h =>
      obtain rfl := hg.det (.inr ⟨_, hd⟩)
      exact ih h

/-- **A loop whose rounds all make the input shorter ends**, and only such a loop is asked for. -/
theorem halts_of_shorter (h : ∀ s rest, Comes d acc s → Gives d s rest → rest.length < s.length) :
    Halts d acc := by
  refine ⟨?_, h⟩
  induction hn : acc.length using Nat.strongRecOn generalizing acc with
  | ind n ih =>
    subst hn
    have hnext : ∀ rest, Gives d acc rest → ∃ xs o left, Drains d rest xs o left := by
      intro rest hg
      exact ih _ (h acc rest (.refl acc) hg) (fun s r hc => h s r (.head hg hc)) rfl
    cases hd : d acc with
    | wait => exact ⟨_, _, _, .wait hd⟩
    | fail e => exact ⟨_, _, _, .fail hd⟩
    | drop rest =>
      obtain ⟨xs, o, left, hr⟩ := hnext rest (.inl hd)
      exact ⟨_, _, _, .drop hd hr⟩
    | item x rest =>
      obtain ⟨xs, o, left, hr⟩ := hnext rest (.inr ⟨x, hd⟩)
      exact ⟨_, _, _, .item hd hr⟩

/-- What is left after a loop that waits is waited at. -/
theorem Drains.waits (h : Drains d acc xs none left) : d left = .wait := by
  generalize ho : (none : Option ε) = o at h
  induction h with
  | wait hd => exact hd
  | fail => cases ho
  | drop _ _ ih => exact ih ho
  | item _ _ ih => exact ih ho

/-! ## Steady decoders -/

/-- A loop that waited goes on where it stopped. -/
theorem Drains.append (hs : Steady d) (h : Drains d acc xs none left)
    (h' : Drains d (left ++ more) xs' o left') : Drains d (acc ++ more) (xs ++ xs') o left' := by
  generalize ho : (none : Option ε) = o₀ at h
  induction h with
  | wait hd => exact h'
  | fail => cases ho
  | drop hd _ ih => exact .drop (hs.drop _ _ _ hd) (ih h' ho)
  | item hd _ ih => exact .item (hs.item _ _ _ _ hd) (ih h' ho)

/-- More input does not help a loop that gave up. -/
theorem Drains.failed_append (hs : Steady d) {e : ε} (h : Drains d acc xs (some e) left) :
    Drains d (acc ++ more) xs (some e) (left ++ more) := by
  generalize ho : some e = o₀ at h
  induction h with
  | wait => cases ho
  | fail hd =>
    cases ho
    exact .fail (hs.fail _ _ _ hd)
  | drop hd _ ih => exact .drop (hs.drop _ _ _ hd) (ih ho)
  | item hd _ ih => exact .item (hs.item _ _ _ _ hd) (ih ho)

/-- Piece by piece comes to the same as at once. -/
theorem Feeds.drains (hs : Steady d) {pieces : List (List β)} {xss : List (List φ)}
    (h : Feeds d acc pieces xss left) (hw : d acc = .wait) :
    Drains d (acc ++ pieces.flatten) xss.flatten none left := by
  induction h with
  | nil acc =>
    rw [List.flatten_nil, List.append_nil]
    exact .wait hw
  | cons hd _ ih =>
    rw [List.flatten_cons, List.flatten_cons, ← List.append_assoc]
    exact hd.append hs (ih hd.waits)

theorem Feeds.det {pieces : List (List β)} {xss xss' : List (List φ)}
    (h : Feeds d acc pieces xss left) (h' : Feeds d acc pieces xss' left') :
    xss = xss' ∧ left = left' := by
  induction h generalizing xss' with
  | nil =>
    cases h'
    exact ⟨rfl, rfl⟩
  | cons hd _ ih =>
    cases h' with
    | cons hd' h' =>
      obtain ⟨rfl, -, rfl⟩ := hd.det hd'
      obtain ⟨rfl, rfl⟩ := ih h'
      exact ⟨rfl, rfl⟩

/-! ## Encodings -/

section

variable {enc : φ → List β} {Good : φ → Prop}

theorem Stalled.waits {t : List β} (ht : Stalled d t) : d t = .wait := ht t List.prefix_rfl

/-- A part of a good item's encoding stalls the decoder. -/
theorem Codec.stalled (hc : Codec d enc Good) {t : List β} {y : φ} (hy : Good y)
    (ht : Unfinished t (enc y)) : Stalled d t := by
  intro s hs
  refine hc.wait y s hy ⟨hs.trans ht.1, ?_⟩
  rintro rfl
  exact ht.2 (ht.1.eq_of_length_le hs.length_le)

/-- Encodings in front are handed out first. -/
theorem Codec.drains (hc : Codec d enc Good) {rest left : List β} {ys : List φ} {o : Option ε}
    (h : Drains d rest ys o left) :
    ∀ xs : List φ, (∀ x ∈ xs, Good x) → Drains d ((xs.map enc).flatten ++ rest) (xs ++ ys) o left
  | [], _ => h
  | x :: xs, hx => by
    rw [List.map_cons, List.flatten_cons, List.append_assoc]
    exact .item (hc.item x _ (hx x (by simp)))
      (hc.drains h xs fun z hz => hx z (List.mem_cons_of_mem x hz))

/-- Cutting encodings anywhere leaves whole ones, then a part that stalls. -/
theorem Codec.cut (hc : Codec d enc Good) {t : List β} (ht : Stalled d t) :
    ∀ (xs : List φ) (s more : List β), (∀ x ∈ xs, Good x) →
      s ++ more = (xs.map enc).flatten ++ t →
      ∃ ys zs t', xs = ys ++ zs ∧ s = (ys.map enc).flatten ++ t' ∧
        t' ++ more = (zs.map enc).flatten ++ t ∧ Stalled d t'
  | [], s, more, _, h => by
    have hs : s <+: t := ⟨more, h⟩
    exact ⟨[], [], s, rfl, rfl, h, fun s' hs' => ht s' (hs'.trans hs)⟩
  | x :: xs, s, more, hx, h => by
    have hgood : Good x := hx x (by simp)
    rw [List.map_cons, List.flatten_cons, List.append_assoc] at h
    by_cases hlen : s.length < (enc x).length
    · have hpre : s <+: enc x :=
        List.prefix_of_prefix_length_le ⟨more, h⟩ ⟨_, rfl⟩ (Nat.le_of_lt hlen)
      refine ⟨[], x :: xs, s, rfl, rfl, ?_, hc.stalled hgood ⟨hpre, ?_⟩⟩
      · rw [List.map_cons, List.flatten_cons, List.append_assoc, h]
      · rintro rfl
        exact absurd hlen (Nat.lt_irrefl _)
    · have hpre : enc x <+: s :=
        List.prefix_of_prefix_length_le ⟨_, rfl⟩ ⟨more, h⟩ (Nat.not_lt.mp hlen)
      obtain ⟨s, rfl⟩ := hpre
      rw [List.append_assoc] at h
      obtain ⟨ys, zs, t', rfl, rfl, hrest, hz⟩ :=
        hc.cut ht xs s more (fun w hw => hx w (List.mem_cons_of_mem x hw))
          (List.append_cancel_left h)
      exact ⟨x :: ys, zs, t', rfl, by simp, hrest, hz⟩

/-- Encodings cut off somewhere: the whole ones are handed out, the rest is waited at. -/
theorem Codec.drains_cut (hc : Codec d enc Good) {t s more : List β} {xs : List φ}
    (ht : Stalled d t) (hx : ∀ x ∈ xs, Good x) (h : s ++ more = (xs.map enc).flatten ++ t) :
    ∃ ys zs t', xs = ys ++ zs ∧ s = (ys.map enc).flatten ++ t' ∧ Drains d s ys none t' ∧
      t' ++ more = (zs.map enc).flatten ++ t ∧ Stalled d t' := by
  obtain ⟨ys, zs, t', rfl, rfl, hrest, ht'⟩ := hc.cut ht xs s more hx h
  have hdr := hc.drains (.wait ht'.waits) ys fun w hw => hx w (List.mem_append_left zs hw)
  rw [List.append_nil] at hdr
  exact ⟨ys, zs, t', rfl, rfl, hdr, hrest, ht'⟩

/-- **Every way to cut encodings into pieces gives the items back**, and leaves the unfinished rest. -/
theorem Codec.feeds (hc : Codec d enc Good) {t : List β} (ht : Stalled d t) :
    ∀ (pieces : List (List β)) (xs : List φ) (acc : List β), (∀ x ∈ xs, Good x) → d acc = .wait →
      acc ++ pieces.flatten = (xs.map enc).flatten ++ t →
      ∃ xss, Feeds d acc pieces xss t ∧ xss.flatten = xs
  | [], xs, acc, hx, hw, h => by
    rw [List.flatten_nil, List.append_nil] at h
    cases xs with
    | nil =>
      obtain rfl : acc = t := h
      exact ⟨[], .nil acc, rfl⟩
    | cons x xs =>
      rw [List.map_cons, List.flatten_cons, List.append_assoc] at h
      rw [h, hc.item x _ (hx x (by simp))] at hw
      cases hw
  | piece :: pieces, xs, acc, hx, hw, h => by
    rw [List.flatten_cons, ← List.append_assoc] at h
    obtain ⟨ys, zs, t', rfl, -, hdr, hrest, -⟩ := hc.drains_cut ht hx h
    obtain ⟨xss, hf, hflat⟩ := hc.feeds ht pieces zs t'
      (fun w hw => hx w (List.mem_append_right ys hw)) hdr.waits hrest
    exact ⟨ys :: xss, .cons hdr hf, by rw [List.flatten_cons, hflat]⟩

end

end Incremental
