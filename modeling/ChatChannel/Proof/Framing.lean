import ChatChannel.Conc.Path
import ChatChannel.Model.Client
import ChatChannel.Proof.Fields
import ChatChannel.Wire.Decoder

/-!
# Bytes on their way

What one program writes to a descriptor and what it makes of what it reads, as functions of the
history of its calls. `Reads` follows the receive buffer of a descriptor through a history; it is
what `exec` does to the buffer of the thread's own server (`reads_exec`), and no other thread touches
it.
-/

set_option autoImplicit false

namespace ChatChannel

open Conc Incremental

/-! ## Histories -/

/-- What a call put on the wire of `n`. -/
def writtenBy (n : Fd) : Call sig → Bytes
  | ⟨.send m b, r⟩ => if m = n then b.take (r.getD 0) else []
  | _ => []

def written (n : Fd) (es : Hist sig) : Bytes := es.flatMap (writtenBy n)

/-- What a call took from the wire of `n`. -/
def receivedBy (n : Fd) : Call sig → Bytes
  | ⟨.recv m, .chunk b⟩ => if m = n then b else []
  | _ => []

def received (n : Fd) (es : Hist sig) : Bytes := es.flatMap (receivedBy n)

/-- What a call does to the buffer of `n`. -/
def ReadStep (n : Fd) (acc : Bytes) : Call sig → Bytes → Prop
  | ⟨.recv m, r⟩, acc' => if m = n then
      acc' = acc ++ receivedBy n ⟨.recv m, r⟩ ∧ ∀ b, r = .chunk b → 1 ≤ b.length ∧ b.length ≤ 4096
    else acc' = acc
  | ⟨.decode m, r⟩, acc' => if m = n then decodeFrames acc = (r, acc') else acc' = acc
  | ⟨.clearBuffer m, _⟩, acc' => acc' = if m = n then [] else acc
  | ⟨.stall, _⟩, _ => False
  | _, acc' => acc' = acc

/-- The history of the calls takes the buffer of `n` from `acc` to `acc'`. -/
inductive Reads (n : Fd) : Bytes → Hist sig → Bytes → Prop
  | nil (acc : Bytes) : Reads n acc [] acc
  | cons {acc acc₁ acc' : Bytes} {e : Call sig} {es : Hist sig} :
      ReadStep n acc e acc₁ → Reads n acc₁ es acc' → Reads n acc (e :: es) acc'

theorem received_append (n : Fd) (es es' : Hist sig) :
    received n (es ++ es') = received n es ++ received n es' := List.flatMap_append ..

theorem written_append (n : Fd) (es es' : Hist sig) :
    written n (es ++ es') = written n es ++ written n es' := List.flatMap_append ..

theorem reads_append {n : Fd} {acc acc' : Bytes} {es es' : Hist sig} :
    Reads n acc (es ++ es') acc' ↔ ∃ acc₁, Reads n acc es acc₁ ∧ Reads n acc₁ es' acc' := by
  induction es generalizing acc with
  | nil =>
    constructor
    · intro h
      exact ⟨acc, .nil acc, h⟩
    · rintro ⟨acc₁, h, h'⟩
      cases h
      exact h'
  | cons e es ih =>
    constructor
    · intro h
      cases h with
      | cons hs h =>
        obtain ⟨acc₁, h₁, h₂⟩ := ih.mp h
        exact ⟨acc₁, .cons hs h₁, h₂⟩
    · rintro ⟨acc₁, h, h'⟩
      cases h with
      | cons hs h => exact .cons hs (ih.mpr ⟨acc₁, h, h'⟩)

/-- One read, and the decoding after it. -/
theorem reads_chunk {n : Fd} {acc acc₁ acc' b : Bytes} {r : Except FrameErr (List Bytes)}
    {es : Hist sig} (hb : 1 ≤ b.length ∧ b.length ≤ 4096)
    (hd : decodeFrames (acc ++ b) = (r, acc₁)) (h : Reads n acc₁ es acc') :
    Reads n acc (⟨.recv n, .chunk b⟩ :: ⟨.decode n, r⟩ :: es) acc' := by
  have hread : ReadStep n acc ⟨.recv n, .chunk b⟩ (acc ++ b) := by
    simp only [ReadStep, receivedBy, if_true, true_and]
    intro b' hb'
    cases hb'
    exact hb
  exact .cons hread (.cons ((if_pos rfl).mpr hd) h)

/-- `exec` treats the buffer of the thread's own server as `Reads` says. -/
theorem reads_exec {t : Srv} {a : Act} {r : Res a} {s s' : St} (n : Fd)
    (h : exec t a r s = some s') (hnew : ∀ c m, a ≠ .newTracker c m)
    (hdrop : ∀ c, a ≠ .dropTracker c) : ReadStep n (s.buffer t n) ⟨a, r⟩ (s'.buffer t n) := by
  unfold St.buffer
  rw [exec_rbuf h]
  cases a
  case recv m =>
    by_cases hm : m = n
    · subst hm
      cases r with
      | chunk b =>
        have hb := (need_eq_some.mp h).1.2
        simpa [ReadStep, After.rbuf, St.buffer, receivedBy] using hb
      | again => simp [ReadStep, After.rbuf, St.buffer, receivedBy]
      | fin => simp [ReadStep, After.rbuf, St.buffer, receivedBy]
      | error => simp [ReadStep, After.rbuf, St.buffer, receivedBy]
    · cases r <;> simp [ReadStep, After.rbuf, hm, Function.update_of_ne (Ne.symm hm)]
  case decode m =>
    by_cases hm : m = n
    · subst hm
      have hr : r = (decodeFrames (s.buffer t m)).1 := (need_eq_some.mp h).1
      simp only [ReadStep, After.rbuf, if_true, Function.update_self, Option.getD_some]
      rw [hr]
      rfl
    · simp [ReadStep, After.rbuf, hm, Function.update_of_ne (Ne.symm hm)]
  case clearBuffer m =>
    by_cases hm : m = n
    · subst hm
      simp [ReadStep, After.rbuf]
    · simp [ReadStep, After.rbuf, hm, Function.update_of_ne (Ne.symm hm)]
  case stall => cases h
  case newTracker c m => exact absurd rfl (hnew c m)
  case dropTracker c => exact absurd rfl (hdrop c)
  all_goals rfl

/-! ## What `send_frame` writes -/

theorem path_sendRest {n : Fd} : ∀ {fuel : Nat} {rest : Bytes} {es : Hist sig},
    rest.length ≤ fuel → (sendRest n fuel rest).Path es (.ok ()) → written n es = rest
  | 0, rest, es, hf, h => by
    obtain ⟨rfl, -⟩ := Prog.path_ret_iff.mp h
    exact (List.length_eq_zero_iff.mp (Nat.le_zero.mp hf)).symm
  | fuel + 1, rest, es, hf, h => by
    unfold sendRest at h
    split at h
    · rename_i hnil
      obtain ⟨rfl, -⟩ := Prog.path_ret_iff.mp h
      exact hnil.symm
    · obtain ⟨r, es, rfl, hk⟩ := Prog.path_act_iff.mp h
      match r with
      | some (k + 1) =>
        have hdrop : (rest.drop (k + 1)).length ≤ fuel := by
          rw [List.length_drop]
          omega
        have hrest := path_sendRest hdrop hk
        have hhead : writtenBy n ⟨.send n rest, some (k + 1)⟩ = rest.take (k + 1) := by
          simp [writtenBy]
        rw [written, List.flatMap_cons, hhead, ← written, hrest, List.take_append_drop]
      | some 0 => cases (Prog.path_raise_iff.mp hk).2
      | none => cases (Prog.path_raise_iff.mp hk).2

/-- The header goes out in one piece, then the payload. -/
theorem path_sendFrame_header {n : Fd} {p : Bytes} {es : Hist sig} (hp : Sized p)
    (h : (sendFrame n p).Path es (.ok ())) : ∃ rest,
      es = ⟨.send n (hexHeader p.length), some 4⟩ :: rest ∧ written n rest = p := by
  obtain ⟨hpos, hmax⟩ := hp
  have hmod : p.length % 2 ^ 32 = p.length := Nat.mod_eq_of_lt (by omega)
  unfold sendFrame at h
  simp only [hmod] at h
  rw [if_neg (by omega), if_neg (by unfold maxFrameSize; omega)] at h
  obtain ⟨r, rest, rfl, hk⟩ := Prog.path_act_iff.mp h
  rw [Prog.bind_ret] at hk
  by_cases hr : r = some 4
  · subst hr
    exact ⟨rest, by rw [hmod], path_sendRest le_rfl hk⟩
  · split at hk
    · exact absurd rfl hr
    · cases (Prog.path_raise_iff.mp hk).2

theorem writtenBy_header (n : Fd) (len : Nat) :
    writtenBy n ⟨.send n (hexHeader len), some 4⟩ = hexHeader len := (if_pos rfl).trans rfl

/-- A frame that was sent is the encoding of its payload, however the kernel split the writes. -/
theorem path_sendFrame {n : Fd} {p : Bytes} {es : Hist sig} (hp : Sized p)
    (h : (sendFrame n p).Path es (.ok ())) : written n es = encodeFrame p := by
  obtain ⟨rest, rfl, hrest⟩ := path_sendFrame_header hp h
  rw [written, List.flatMap_cons, writtenBy_header, ← written, hrest]
  rfl

/-! ## What `recv_frame` makes of what it reads -/

theorem received_cons (n : Fd) (e : Call sig) (es : Hist sig) :
    received n (e :: es) = receivedBy n e ++ received n es := rfl

/-- The read loop fills the buffer, until it stops or a `recv` goes wrong. -/
theorem path_recvLoop {n : Fd} : ∀ {fuel : Nat} {acc acc' : Bytes} {es : Hist sig}
    {out : Except Err Unit}, (recvLoop n fuel).Path es out → Reads n acc es acc' →
      acc' = acc ++ received n es ∧
        ((out = .ok () ∧ ∀ r, ⟨.recv n, r⟩ ∈ es → r ≠ .fin ∧ r ≠ .error) ∨
          (∃ e, out = .error e) ∧ (⟨.recv n, .fin⟩ ∈ es ∨ ⟨.recv n, .error⟩ ∈ es))
  | 0, acc, acc', es, out, h, hr => by
    obtain ⟨r, es, rfl, -⟩ := Prog.path_act_iff.mp h
    cases hr with
    | cons hs _ => exact hs.elim
  | fuel + 1, acc, acc', es, out, h, hr => by
    obtain ⟨r, es, rfl, hk⟩ := Prog.path_act_iff.mp h
    cases hr with
    | @cons _ acc₁ _ _ _ hs hrest =>
      simp only [ReadStep, if_true] at hs
      obtain ⟨rfl, -⟩ := hs
      rw [received_cons, ← List.append_assoc]
      rw [Prog.bind_ret] at hk
      cases r with
      | again =>
        obtain ⟨rfl, rfl⟩ := Prog.path_ret_iff.mp hk
        cases hrest
        exact ⟨by simp [received], .inl ⟨rfl, by simp⟩⟩
      | fin =>
        obtain ⟨rfl, rfl⟩ := Prog.path_raise_iff.mp hk
        cases hrest
        exact ⟨by simp [received], .inr ⟨⟨_, rfl⟩, by simp⟩⟩
      | error =>
        obtain ⟨rfl, rfl⟩ := Prog.path_raise_iff.mp hk
        cases hrest
        exact ⟨by simp [received], .inr ⟨⟨_, rfl⟩, by simp⟩⟩
      | chunk b =>
        by_cases hb : b.length < 4096
        · simp only [hb, if_true] at hk
          obtain ⟨rfl, rfl⟩ := Prog.path_ret_iff.mp hk
          cases hrest
          exact ⟨by simp [received], .inl ⟨rfl, by simp⟩⟩
        · simp only [hb, if_false] at hk
          obtain ⟨hacc, hend⟩ := path_recvLoop hk hrest
          refine ⟨hacc, hend.imp (fun ⟨ho, hall⟩ => ⟨ho, ?_⟩) fun ⟨he, hbad⟩ => ⟨he, ?_⟩⟩
          · intro r hr
            rcases List.mem_cons.mp hr with heq | hr
            · cases heq
              simp
            · exact hall r hr
          · exact hbad.imp (List.mem_cons_of_mem _) (List.mem_cons_of_mem _)

/-- Nobody told the reader of an end of the stream. -/
def Open (n : Fd) (es : Hist sig) : Prop := ∀ r, ⟨.recv n, r⟩ ∈ es → r ≠ .fin ∧ r ≠ .error

/-- One `recv_frame` that is not told of an end of the stream decodes the buffer with what it
read. -/
theorem path_recvFrame {P : Params} {n : Fd} {acc acc' : Bytes} {es : Hist sig}
    {out : Except Err (List Bytes)} (h : (recvFrame P n).Path es out) (hr : Reads n acc es acc')
    (hopen : Open n es) :
    (decodeFrames (acc ++ received n es)).2 = acc' ∧
      out = (decodeFrames (acc ++ received n es)).1.mapError Err.frame := by
  rcases Prog.path_bind_iff.mp h with ⟨es₁, u, es₂, rfl, h₁, h₂⟩ | ⟨e, rfl, he⟩
  · obtain ⟨acc₁, hr₁, hr₂⟩ := reads_append.mp hr
    obtain ⟨rfl, -⟩ := path_recvLoop h₁ hr₁
    obtain ⟨r, es₃, rfl, hk⟩ := Prog.path_act_iff.mp h₂
    cases hr₂ with
    | @cons _ acc₂ _ _ _ hs hrest =>
      simp only [ReadStep, if_true] at hs
      rw [Prog.bind_ret] at hk
      have hnil : es₃ = [] ∧ out = r.mapError Err.frame := by
        cases r with
        | ok frames => exact Prog.path_ret_iff.mp hk
        | error e => exact Prog.path_raise_iff.mp hk
      obtain ⟨rfl, hout⟩ := hnil
      cases hrest
      have hrec : received n (es₁ ++ [⟨.decode n, r⟩]) = received n es₁ := by
        simp [received, receivedBy]
      rw [hrec, hs]
      exact ⟨rfl, hout⟩
  · obtain ⟨-, ⟨ho, -⟩ | ⟨-, hbad⟩⟩ := path_recvLoop he hr
    · cases ho
    · rcases hbad with hbad | hbad
      · exact absurd rfl (hopen _ hbad).1
      · exact absurd rfl (hopen _ hbad).2

end ChatChannel
