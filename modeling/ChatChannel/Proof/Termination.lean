import Mathlib.Tactic.Ring
import ChatChannel.Model.Display

/-!
# The clients' loops end

`recv_frames` computes `4 + len` in 32 bits and does not limit `len`. A round removes that many bytes,
so it removes one at least unless the header reads `-4`; then it stands still, and the loop goes on for
as long as nobody leaves it (`loop_halts_iff`).
-/

set_option autoImplicit false

namespace ChatChannel.Client

open Incremental

/-! ## Reading a header -/

theorem hexVal_lt {c : UInt8} {x : Nat} (h : hexVal? c = some x) : x < 16 := by
  unfold hexVal? at h
  split_ifs at h with h0 ha hA
  · have := UInt8.le_iff_toNat_le.mp h0.2
    cases h
    simp at this
    omega
  · have := UInt8.le_iff_toNat_le.mp ha.2
    cases h
    simp at this
    omega
  · have := UInt8.le_iff_toNat_le.mp hA.2
    cases h
    simp at this
    omega

theorem hexRun_lt : ∀ (s : Bytes) (v : Nat), hexRun v s < (v + 1) * 16 ^ s.length := by
  intro s
  induction s with
  | nil =>
    intro v
    simp [hexRun]
  | cons c s ih =>
    intro v
    have hpow : 0 < 16 ^ s.length := Nat.pow_pos (by omega)
    rw [hexRun, List.length_cons, Nat.pow_succ]
    cases hx : hexVal? c with
    | none =>
      calc v < v + 1 := by omega
        _ ≤ (v + 1) * (16 ^ s.length * 16) := Nat.le_mul_of_pos_right _ (by omega)
    | some x =>
      have hlt := hexVal_lt hx
      calc hexRun (16 * v + x) s < (16 * v + x + 1) * 16 ^ s.length := ih _
        _ ≤ (16 * (v + 1)) * 16 ^ s.length := Nat.mul_le_mul_right _ (by omega)
        _ = (v + 1) * (16 ^ s.length * 16) := by ring

theorem hexDigits_lt {s : Bytes} {v : Nat} (hlen : s.length ≤ 4) (h : hexDigits s = some v) :
    v < 65536 := by
  have hrun : ∀ t : Bytes, t.length ≤ 4 → hexRun 0 t < 65536 := by
    intro t ht
    calc hexRun 0 t < (0 + 1) * 16 ^ t.length := hexRun_lt t 0
      _ ≤ (0 + 1) * 16 ^ 4 := Nat.mul_le_mul_left _ (Nat.pow_le_pow_right (by omega) ht)
      _ = 65536 := rfl
  unfold hexDigits at h
  split at h
  · split at h
    · cases h
      exact hrun _ (by simp at hlen ⊢; omega)
    · cases h
      exact hrun _ hlen
  · rw [Option.map_eq_some_iff] at h
    obtain ⟨-, -, rfl⟩ := h
    exact hrun _ hlen
  · cases h

/-- Without a minus sign four bytes never read as more than four digits. -/
theorem stoul16_lt {s : Bytes} {v : Nat} (hlen : s.length ≤ 4) (hsign : 45 ∉ s)
    (h : stoul16 s = some v) : v < 65536 := by
  have htail : (s.dropWhile isSpace).length ≤ 4 := (List.dropWhile_suffix _).length_le.trans hlen
  unfold stoul16 at h
  split at h
  · rename_i cs heq
    rw [heq] at htail
    exact hexDigits_lt (by simp at htail; omega) h
  · rename_i cs heq
    have hmem : 45 ∈ s.dropWhile isSpace := by rw [heq]; exact List.mem_cons_self
    exact absurd ((List.dropWhile_suffix _).subset hmem) hsign
  · exact hexDigits_lt htail h

/-- A header that reads `-4`: white space perhaps, a minus sign, and digits that say four. -/
def MinusFour (h : Bytes) : Prop := ∃ ds, h.dropWhile isSpace = 45 :: ds ∧ hexDigits ds = some 4

/-- Such headers are the ones whose frame has no length. -/
theorem minusFour_iff {h : Bytes} {v : Nat} (hlen : h.length ≤ 4) (hv : stoul16 h = some v) :
    MinusFour h ↔ (4 + v % 2 ^ 32) % 2 ^ 32 = 0 := by
  have htail : (h.dropWhile isSpace).length ≤ 4 := (List.dropWhile_suffix _).length_le.trans hlen
  unfold stoul16 at hv
  unfold MinusFour
  split at hv
  · rename_i cs heq
    rw [heq] at htail
    have hlt := hexDigits_lt (by simp at htail; omega) hv
    rw [heq]
    refine ⟨?_, fun h0 => ?_⟩
    · rintro ⟨ds, hds, -⟩
      cases hds
    · omega
  · rename_i cs heq
    rw [heq] at htail
    rw [Option.map_eq_some_iff] at hv
    obtain ⟨w, hw, rfl⟩ := hv
    have hlt := hexDigits_lt (by simp at htail; omega) hw
    rw [heq]
    constructor
    · rintro ⟨ds, hds, h4⟩
      cases hds
      rw [hw] at h4
      cases h4
      rfl
    · intro h0
      have h4 : w = 4 := by omega
      exact ⟨cs, rfl, h4 ▸ hw⟩
  · rename_i hplus hminus
    have hlt := hexDigits_lt htail hv
    refine ⟨?_, fun h0 => ?_⟩
    · rintro ⟨ds, hds, -⟩
      exact absurd hds (hminus ds)
    · omega

/-! ## A round -/

/-- Whether the handshake gives up does not depend on what it has found so far. -/
theorem greet_isNone (rd : Reader) (h h' : Handshake) (value : rd.Json) :
    (greet rd h value).isNone = (greet rd h' value).isNone := by
  unfold greet
  dsimp only
  split_ifs <;> first | rfl | (cases rd.int value (ascii "channel_id") <;> rfl)

theorem handshake_isNone (rd : Reader) (h h' : Handshake) (payload : Bytes) :
    (handshake rd h payload).isNone = (handshake rd h' payload).isNone := by
  have hall : ∀ (values : List rd.Json) (h h' : Handshake),
      (values.foldlM (greet rd) h).isNone = (values.foldlM (greet rd) h').isNone := by
    intro values
    induction values with
    | nil =>
      intro h h'
      rfl
    | cons value values ih =>
      intro h h'
      have hone := greet_isNone rd h h' value
      rw [List.foldlM_cons, List.foldlM_cons]
      cases hg : greet rd h value with
      | none =>
        rw [hg] at hone
        rw [Option.isNone_iff_eq_none.mp hone.symm]
      | some g =>
        rw [hg] at hone
        cases hg' : greet rd h' value with
        | none =>
          rw [hg'] at hone
          cases hone
        | some g' => exact ih g g'
  unfold handshake
  cases rd.loadb payload with
  | none => rfl
  | some obj =>
    dsimp only
    cases rd.elements obj with
    | none => exact greet_isNone rd h h' obj
    | some values => exact hall values h h'

variable {l : Loop} {acc s rest : Bytes}

/-- A round that goes on has read a header, and removes the frame it announces. -/
theorem gives_round (h : Gives l.round acc rest) : ∃ v, 4 ≤ acc.length ∧
    stoul16 (acc.take 4) = some v ∧ (4 + v % 2 ^ 32) % 2 ^ 32 ≤ acc.length ∧
    l.leaves ((acc.drop 4).take (v % 2 ^ 32)) = false ∧
    rest = acc.drop ((4 + v % 2 ^ 32) % 2 ^ 32) := by
  unfold Gives Loop.round look at h
  split_ifs at h with h4
  · simp at h
  cases hv : stoul16 (acc.take 4) with
  | none => simp [hv] at h
  | some v =>
    simp only [hv] at h
    split_ifs at h with hshort
    · simp at h
    · dsimp only at h
      split_ifs at h with hl
      · simp at h
      · refine ⟨v, Nat.not_lt.mp h4, rfl, Nat.not_lt.mp hshort, by simpa using hl, ?_⟩
        rcases h with h | ⟨x, h⟩
        · cases h
        · cases h
          rfl

/-- A round makes the accumulator shorter unless its header reads `-4`. -/
theorem shorter_iff (h : Gives l.round acc rest) :
    rest.length < acc.length ↔ ¬ MinusFour (acc.take 4) := by
  obtain ⟨v, h4, hv, hfit, -, rfl⟩ := gives_round h
  rw [minusFour_iff (by simp) hv, List.length_drop]
  omega

/-- The round at a `-4` whose payload makes nobody leave. -/
theorem round_minusFour (h4 : 4 ≤ acc.length) (hm : MinusFour (acc.take 4))
    (hl : l.leaves ((acc.drop 4).take (2 ^ 32 - 4)) = false) : Gives l.round acc acc := by
  obtain ⟨v, hv⟩ : ∃ v, stoul16 (acc.take 4) = some v := by
    obtain ⟨ds, hds, hd4⟩ := hm
    exact ⟨(2 ^ 64 - 4) % 2 ^ 64, by unfold stoul16; rw [hds]; simp [hd4]⟩
  have h0 := (minusFour_iff (by simp) hv).mp hm
  have hlen : v % 2 ^ 32 = 2 ^ 32 - 4 := by omega
  refine .inr ⟨(acc.drop 4).take (2 ^ 32 - 4), ?_⟩
  unfold Loop.round look
  rw [if_neg (Nat.not_lt.mpr h4), hv]
  dsimp only
  rw [h0, if_neg (Nat.not_lt_zero _), hlen]
  dsimp only
  rw [hl, if_neg Bool.false_ne_true, List.drop_zero]

/-! ## The loop -/

/-- The loop stands before a `-4`, and what it does with the rest of the accumulator does not make it
leave. -/
def Loops (l : Loop) (acc : Bytes) : Prop :=
  4 ≤ acc.length ∧ MinusFour (acc.take 4) ∧ l.leaves ((acc.drop 4).take (2 ^ 32 - 4)) = false

theorem Loops.not_halts {rest : Bytes} (hs : Loops l rest) (hc : Comes l.round acc rest) :
    ¬ Halts l.round acc := by
  rintro ⟨⟨xs, o, left, hd⟩, -⟩
  exact hd.not_stuck hc (round_minusFour hs.1 hs.2.1 hs.2.2)

/-- **The clients' loops end** on an accumulator, each round leaving the loop or removing a byte, if and
only if the frames in it do not lead to a header that reads `-4`. -/
theorem loop_halts_iff (l : Loop) (acc : Bytes) :
    Halts l.round acc ↔ ∀ rest, Comes l.round acc rest → ¬ Loops l rest := by
  constructor
  · intro h rest hc hs
    exact hs.not_halts hc h
  · intro h
    apply halts_of_shorter
    intro s rest hc hg
    rw [shorter_iff hg]
    intro hm
    obtain ⟨v, h4, hv, -, hl, -⟩ := gives_round hg
    have h0 := (minusFour_iff (by simp) hv).mp hm
    have hlen : v % 2 ^ 32 = 2 ^ 32 - 4 := by omega
    exact h s hc ⟨h4, hm, hlen ▸ hl⟩

/-- The loop of `recv_frames` stands still at `-004`. -/
theorem loop_stands_still : ¬ Halts Loop.recvFrames.round (ascii "-004") := by
  have hm : MinusFour ((ascii "-004").take 4) := ⟨ascii "004", by decide, by decide⟩
  exact Loops.not_halts ⟨by decide, hm, rfl⟩ (.refl _)

end ChatChannel.Client
