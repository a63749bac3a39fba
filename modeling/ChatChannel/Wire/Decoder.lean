import Mathlib.Tactic.IntervalCases
import ChatChannel.Wire.Frame
import ChatChannel.Wire.Incremental

/-!
# The server's decoder

`decodeHead` as an incremental decoder. It is steady, since a header is read from the first four
bytes and these do not change, and it knows what `send_frame` writes; `decodeFrames` is the loop
around it.
-/

set_option autoImplicit false

namespace ChatChannel

open Incremental

/-! ## Hexadecimal headers -/

/-- The characters of a header are digits to `stoul`, and neither space nor sign nor `x`. -/
theorem hexChar_spec : ∀ d < 16, isSpace (hexChar d) = false ∧ hexChar d ≠ 43 ∧ hexChar d ≠ 45 ∧
    hexChar d ≠ 120 ∧ hexChar d ≠ 88 ∧ hexVal? (hexChar d) = some d := by
  decide

theorem stoul16_hexChars {a b c d : Nat} (ha : a < 16) (hb : b < 16) (hc : c < 16) (hd : d < 16) :
    stoul16 [hexChar a, hexChar b, hexChar c, hexChar d] =
      some (a * 4096 + b * 256 + c * 16 + d) := by
  obtain ⟨hspace, hplus, hminus, -, -, hva⟩ := hexChar_spec a ha
  obtain ⟨-, -, -, hx, hX, hvb⟩ := hexChar_spec b hb
  obtain ⟨-, -, -, -, -, hvc⟩ := hexChar_spec c hc
  obtain ⟨-, -, -, -, -, hvd⟩ := hexChar_spec d hd
  have hrun : hexRun 0 [hexChar a, hexChar b, hexChar c, hexChar d] =
      a * 4096 + b * 256 + c * 16 + d := by
    simp only [hexRun, hva, hvb, hvc, hvd]
    omega
  have hdigits : hexDigits [hexChar a, hexChar b, hexChar c, hexChar d] =
      some (a * 4096 + b * 256 + c * 16 + d) := by
    unfold hexDigits
    split
    · rename_i x y cs heq
      simp only [List.cons.injEq] at heq
      obtain ⟨-, rfl, -⟩ := heq
      simp [hx, hX, hrun]
    · rename_i x cs _ heq
      simp only [List.cons.injEq] at heq
      obtain ⟨rfl, -⟩ := heq
      simp [hva, hrun]
    · rename_i heq
      cases heq
  unfold stoul16
  rw [List.dropWhile_cons_of_neg (by simp [hspace])]
  split
  · rename_i cs heq
    simp only [List.cons.injEq] at heq
    exact absurd heq.1 hplus
  · rename_i cs heq
    simp only [List.cons.injEq] at heq
    exact absurd heq.1 hminus
  · exact hdigits

theorem stoul16_hexHeader {len : Nat} (h : len < 2 ^ 16) : stoul16 (hexHeader len) = some len := by
  unfold hexHeader
  rw [stoul16_hexChars (Nat.mod_lt _ (by omega)) (Nat.mod_lt _ (by omega))
    (Nat.mod_lt _ (by omega)) (Nat.mod_lt _ (by omega))]
  congr 1
  omega

@[simp] theorem length_hexHeader (len : Nat) : (hexHeader len).length = 4 := rfl

/-! ## Looking at the head -/

/-- `decodeHead` in the library's terms. -/
def look (acc : Bytes) : Look UInt8 Bytes FrameErr :=
  match decodeHead acc with
  | .wait => .wait
  | .skip rest => .drop rest
  | .frame payload rest => .item payload rest
  | .bad e => .fail e

/-- What the first four bytes say. -/
theorem look_of_header {acc : Bytes} {v : Nat} (hlen : 4 ≤ acc.length)
    (hv : stoul16 (acc.take 4) = some v) : look acc =
      if maxFrameSize < v % 2 ^ 32 then .fail .tooLarge
      else if v % 2 ^ 32 = 0 then .drop (acc.drop 4)
      else if acc.length < 4 + v % 2 ^ 32 then .wait
      else .item ((acc.drop 4).take (v % 2 ^ 32)) (acc.drop (4 + v % 2 ^ 32)) := by
  unfold look decodeHead
  rw [if_neg (Nat.not_lt.mpr hlen), hv]
  dsimp only
  split_ifs <;> rfl

theorem look_of_invalid {acc : Bytes} (hlen : 4 ≤ acc.length) (hv : stoul16 (acc.take 4) = none) :
    look acc = .fail .invalidHeader := by
  unfold look decodeHead
  rw [if_neg (Nat.not_lt.mpr hlen), hv]

theorem look_of_short {acc : Bytes} (hlen : acc.length < 4) : look acc = .wait := by
  unfold look decodeHead
  rw [if_pos hlen]

theorem shrinks_look : Shrinks look := by
  have key : ∀ acc rest, (look acc = .drop rest ∨ ∃ x, look acc = .item x rest) →
      rest.length < acc.length := by
    intro acc rest h
    by_cases hlen : acc.length < 4
    · simp [look_of_short hlen] at h
    have h4 := Nat.not_lt.mp hlen
    cases hv : stoul16 (acc.take 4) with
    | none => simp [look_of_invalid h4 hv] at h
    | some v =>
      rw [look_of_header h4 hv] at h
      split_ifs at h
      · simp at h
      · simp only [Look.drop.injEq, exists_false, or_false] at h
        rw [← h, List.length_drop]
        omega
      · simp at h
      · simp only [Look.item.injEq, false_or] at h
        obtain ⟨x, -, h⟩ := h
        rw [← h, List.length_drop]
        omega
  exact ⟨fun acc rest h => key acc rest (.inl h), fun acc x rest h => key acc rest (.inr ⟨x, h⟩)⟩

theorem steady_look : Steady look := by
  have hshort : ∀ acc, look acc ≠ .wait → 4 ≤ acc.length := by
    intro acc h
    by_contra hlen
    exact h (look_of_short (Nat.not_le.mp hlen))
  have htake : ∀ acc more : Bytes, 4 ≤ acc.length → (acc ++ more).take 4 = acc.take 4 :=
    fun acc more h => List.take_append_of_le_length h
  have hmore : ∀ acc more : Bytes, 4 ≤ acc.length → 4 ≤ (acc ++ more).length := by
    intro acc more h
    rw [List.length_append]
    omega
  constructor
  · intro acc rest more h
    have h4 := hshort acc (by simp [h])
    cases hv : stoul16 (acc.take 4) with
    | none => simp [look_of_invalid h4 hv] at h
    | some v =>
      rw [look_of_header (hmore acc more h4) (by rw [htake acc more h4, hv])]
      rw [look_of_header h4 hv] at h
      split_ifs at h with hbig hzero hwait
      rw [if_neg hbig, if_pos hzero, ← Look.drop.inj h, List.drop_append_of_le_length h4]
  · intro acc x rest more h
    have h4 := hshort acc (by simp [h])
    cases hv : stoul16 (acc.take 4) with
    | none => simp [look_of_invalid h4 hv] at h
    | some v =>
      rw [look_of_header (hmore acc more h4) (by rw [htake acc more h4, hv])]
      rw [look_of_header h4 hv] at h
      split_ifs at h with hbig hzero hwait
      obtain ⟨rfl, rfl⟩ := Look.item.inj h
      have hlen : 4 + v % 2 ^ 32 ≤ acc.length := Nat.not_lt.mp hwait
      have hfull : v % 2 ^ 32 ≤ (acc.drop 4).length := by
        rw [List.length_drop]
        omega
      rw [if_neg hbig, if_neg hzero, if_neg, List.drop_append_of_le_length h4,
        List.take_append_of_le_length hfull, List.drop_append_of_le_length hlen]
      rw [List.length_append]
      omega
  · intro acc e more h
    have h4 := hshort acc (by simp [h])
    cases hv : stoul16 (acc.take 4) with
    | none =>
      rw [look_of_invalid (hmore acc more h4) (by rw [htake acc more h4, hv])]
      rwa [look_of_invalid h4 hv] at h
    | some v =>
      rw [look_of_header (hmore acc more h4) (by rw [htake acc more h4, hv])]
      rw [look_of_header h4 hv] at h
      split_ifs at h with hbig hzero hwait
      rwa [if_pos hbig]

/-! ## Encoded frames -/

/-- A payload `send_frame` sends. -/
def Sized (p : Bytes) : Prop := 1 ≤ p.length ∧ p.length ≤ 16384

@[simp] theorem length_encodeFrame (p : Bytes) : (encodeFrame p).length = 4 + p.length := by
  simp [encodeFrame]

theorem take_encodeFrame (p more : Bytes) :
    (encodeFrame p ++ more).take 4 = hexHeader p.length := rfl

/-- A part of a frame is too short for a header, or has the frame's. -/
theorem unfinished_frame {p t : Bytes} (ht : Unfinished t (encodeFrame p)) :
    t.length < 4 ∨ 4 ≤ t.length ∧ t.length < 4 + p.length ∧ t.take 4 = hexHeader p.length := by
  obtain ⟨⟨more, hmore⟩, hne⟩ := ht
  have hlen := congrArg List.length hmore
  rw [List.length_append, length_encodeFrame] at hlen
  have hmore0 : more.length ≠ 0 := by
    intro h0
    obtain rfl := List.length_eq_zero_iff.mp h0
    exact hne (by rwa [List.append_nil] at hmore)
  by_cases h4 : t.length < 4
  · exact .inl h4
  · refine .inr ⟨Nat.not_lt.mp h4, by omega, ?_⟩
    rw [← take_encodeFrame p [], List.append_nil, ← hmore,
      List.take_append_of_le_length (Nat.not_lt.mp h4)]

theorem codec_look : Codec look encodeFrame Sized where
  item := by
    rintro p more ⟨hpos, hmax⟩
    have hmod : p.length % 2 ^ 32 = p.length := Nat.mod_eq_of_lt (by omega)
    have hlen : 4 ≤ (encodeFrame p ++ more).length := by
      rw [List.length_append, length_encodeFrame]
      omega
    rw [look_of_header hlen (stoul16_hexHeader (by omega : p.length < 2 ^ 16)), hmod,
      if_neg (by unfold maxFrameSize; omega), if_neg (by omega), if_neg]
    · have hdrop : (encodeFrame p ++ more).drop 4 = p ++ more := rfl
      rw [← List.drop_drop, hdrop]
      simp
    · rw [List.length_append, length_encodeFrame]
      omega
  wait := by
    rintro p t ⟨hpos, hmax⟩ ht
    rcases unfinished_frame ht with hshort | ⟨h4, hlt, hhead⟩
    · exact look_of_short hshort
    · have hmod : p.length % 2 ^ 32 = p.length := Nat.mod_eq_of_lt (by omega)
      rw [look_of_header h4 (hhead ▸ stoul16_hexHeader (by omega : p.length < 2 ^ 16)), hmod,
        if_neg (by unfold maxFrameSize; omega), if_neg (by omega), if_pos hlt]

/-! ## The loop -/

/-- How `decodeFrames` reports the end of the loop. -/
def verdict (frames : List Bytes) : Option FrameErr → Except FrameErr (List Bytes)
  | none => .ok frames
  | some e => .error e

theorem decodeLoop_of_drains {acc left : Bytes} {xs : List Bytes} {o : Option FrameErr}
    (h : Drains look acc xs o left) : ∀ (fuel : Nat) (frames : List Bytes), acc.length ≤ fuel →
      decodeLoop fuel acc frames = (verdict (frames ++ xs) o, left) := by
  have hstop : ∀ (acc : Bytes) (fuel : Nat) (frames : List Bytes), look acc = .wait →
      decodeLoop fuel acc frames = (.ok frames, acc) := by
    intro acc fuel frames hd
    cases fuel with
    | zero => rfl
    | succ fuel =>
      unfold look at hd
      unfold decodeLoop
      cases hh : decodeHead acc <;> simp_all
  induction h with
  | wait hd =>
    intro fuel frames _
    rw [hstop _ fuel frames hd, List.append_nil]
    rfl
  | @fail acc e hd =>
    intro fuel frames hf
    have h4 : 0 < acc.length := by
      by_contra h0
      rw [look_of_short (by omega)] at hd
      cases hd
    obtain ⟨fuel, rfl⟩ : ∃ k, fuel = k + 1 := ⟨fuel - 1, by omega⟩
    unfold look at hd
    unfold decodeLoop
    cases hh : decodeHead acc <;> simp_all [verdict]
  | @drop acc rest _ xs o hd _ ih =>
    intro fuel frames hf
    have hlt := shrinks_look.drop _ _ hd
    obtain ⟨fuel, rfl⟩ : ∃ k, fuel = k + 1 := ⟨fuel - 1, by omega⟩
    have hnext := ih fuel frames (by omega)
    unfold look at hd
    unfold decodeLoop
    cases hh : decodeHead acc <;> simp_all
  | @item acc rest _ x xs o hd _ ih =>
    intro fuel frames hf
    have hlt := shrinks_look.item _ _ _ hd
    obtain ⟨fuel, rfl⟩ : ∃ k, fuel = k + 1 := ⟨fuel - 1, by omega⟩
    have hnext := ih fuel (frames ++ [x]) (by omega)
    unfold look at hd
    unfold decodeLoop
    cases hh : decodeHead acc <;> simp_all

theorem decodeFrames_of_drains {acc left : Bytes} {xs : List Bytes} {o : Option FrameErr}
    (h : Drains look acc xs o left) : decodeFrames acc = (verdict xs o, left) :=
  decodeLoop_of_drains h acc.length [] le_rfl

/-- Every accumulator drains in one way. -/
theorem drains_look (acc : Bytes) : ∃ xs o left, Drains look acc xs o left :=
  Drains.exists shrinks_look acc

theorem drains_of_decodeFrames {acc left : Bytes} {xs : List Bytes}
    (h : decodeFrames acc = (.ok xs, left)) : Drains look acc xs none left := by
  obtain ⟨ys, o, rest, hd⟩ := drains_look acc
  rw [decodeFrames_of_drains hd, Prod.mk.injEq] at h
  obtain ⟨hv, rfl⟩ := h
  cases o with
  | none =>
    cases hv
    exact hd
  | some e => cases hv

end ChatChannel
