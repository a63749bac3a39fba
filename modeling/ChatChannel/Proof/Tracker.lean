import ChatChannel.Proof.Fields

/-!
# One descriptor and the server that tracks it

What the calls of a server's thread do to the number they name, seen from that server: whether it is
open and what is behind it, whether it is among the clients and registered with epoll, its name and its
buffer. A call leaves every other number as it was (`sameAt_of_touches`).
-/

set_option autoImplicit false

namespace ChatChannel

open Conc

section

variable {t v : Srv} {a : Act} {r : Res a} {s s' s'' : St} {m n : Fd}

/-! ## Registration -/

theorem interest_mapInterest {o : Option File} (f : Finset Fd → Finset Fd)
    (ho : File.isEpoll o = true) :
    File.interest (o.map (File.mapInterest f)) = f (File.interest o) := by
  cases o with
  | none => cases ho
  | some x =>
    cases x with
    | epoll i => rfl
    | _ => cases ho

theorem isEpoll_of_mem {o : Option File} (h : n ∈ File.interest o) : File.isEpoll o = true := by
  cases o with
  | none => exact absurd h (Finset.notMem_empty n)
  | some x =>
    cases x with
    | epoll i => rfl
    | _ => exact absurd h (Finset.notMem_empty n)

theorem registered_onInterest (f : Finset Fd → Finset Fd)
    (ho : File.isEpoll (s.file (s.base t).efd) = true) :
    File.interest ((s.onInterest t f).file (s.base t).efd) = f (s.registered t) := by
  rw [St.onInterest_file, Function.update_self]
  exact interest_mapInterest f ho

theorem registered_addClient {x : AddRes} (h : exec t (.addClient n) x s = some s') :
    s'.registered t = if x = .ok then insert n (s.registered t) else s.registered t := by
  have hefd := exec_efd h t
  unfold St.registered
  rw [hefd, exec_file h]
  cases x with
  | ok =>
    obtain ⟨⟨-, -, hadd⟩, -⟩ := need_eq_some.mp h
    have hepoll : File.isEpoll (s.file (s.base t).efd) = true := by
      by_contra hno
      exact hadd (.inl (by simpa using hno))
    exact registered_onInterest _ hepoll
  | full => rfl
  | failed => rfl

theorem registered_deleteClient {b : Bool} (h : exec t (.deleteClient n) b s = some s') :
    s'.registered t = if b = true then (s.registered t).erase n else s.registered t := by
  have hefd := exec_efd h t
  unfold St.registered
  rw [hefd, exec_file h]
  cases b with
  | true =>
    obtain ⟨⟨-, hreg⟩, -⟩ := need_eq_some.mp h
    exact registered_onInterest _ (isEpoll_of_mem hreg)
  | false => rfl

theorem mem_forget {o : Option File} : m ∈ File.interest (o.map (File.forget n)) ↔
    m ∈ File.interest o ∧ m ≠ n := by
  cases o with
  | none => simp [File.interest]
  | some x =>
    cases x with
    | epoll i => simp [File.interest, File.forget, and_comm]
    | _ => simp [File.interest, File.forget]

/-- Closing a connection takes it off the list. -/
theorem mem_registered_close (h : exec t (.close n) () s = some s')
    (hn : (File.conn? (s.file n)).isSome) : m ∈ s'.registered t ↔ m ∈ s.registered t ∧ m ≠ n := by
  have hefd := exec_efd h t
  unfold St.registered
  rw [hefd, exec_file h]
  show m ∈ File.interest ((s.closeFile n).file (s.base t).efd) ↔ _
  rw [St.closeFile_file, Function.update_apply]
  split
  · rename_i he
    have hnone : File.interest (s.file n) = ∅ := by
      cases hf : s.file n with
      | none => rfl
      | some x => cases x <;> simp_all [File.conn?, File.interest]
    rw [he, hnone]
    simp [File.interest]
  · exact mem_forget

/-! ## Other numbers -/

/-- Nothing about the number `n` has changed for the server `v`. -/
structure SameAt (v : Srv) (n : Fd) (s s' : St) : Prop where
  closed : s'.file n = none ↔ s.file n = none
  conn : File.conn? (s'.file n) = File.conn? (s.file n)
  name : s'.names n = s.names n
  buffer : (s'.base v).rbuf n = (s.base v).rbuf n
  member : n ∈ (s'.base v).clients ↔ n ∈ (s.base v).clients
  registered : n ∈ s'.registered v ↔ n ∈ s.registered v

/-- The server's own descriptors have not changed. -/
def SameSelf (v : Srv) (s s' : St) : Prop :=
  (s'.base v).efd = (s.base v).efd ∧ s'.listenFd = s.listenFd

theorem SameAt.refl (v : Srv) (n : Fd) (s : St) : SameAt v n s s :=
  ⟨Iff.rfl, rfl, rfl, rfl, Iff.rfl, Iff.rfl⟩

theorem SameAt.trans (h : SameAt v n s s') (h' : SameAt v n s' s'') : SameAt v n s s'' where
  closed := h'.closed.trans h.closed
  conn := h'.conn.trans h.conn
  name := h'.name.trans h.name
  buffer := h'.buffer.trans h.buffer
  member := h'.member.trans h.member
  registered := h'.registered.trans h.registered

theorem SameSelf.trans (h : SameSelf v s s') (h' : SameSelf v s' s'') : SameSelf v s s'' :=
  ⟨h'.1.trans h.1, h'.2.trans h.2⟩

/-- What is not refused and registered then is deletable now. -/
theorem SameAt.deletable (h : SameAt v n s s') (hs : SameSelf v s s') :
    s'.deletable v n ↔ s.deletable v n := by
  unfold St.deletable St.addRefused
  rw [hs.1, hs.2, h.registered]

/-- The calls by which a server deals with the descriptor `n`. -/
def Touches (n : Fd) : Act → Prop
  | .addClient m | .deleteClient m | .removeUserName m | .close m | .clearBuffer m => m = n
  | .setCursor _ | .systemNow | .getUserName _ | .pushMq _ _ | .getDeletion | .takeJoinPool
  | .takeLeavePool | .getClientCount | .joinPoolEmpty | .storeStop _ _ | .storeEmptySince _ _
  | .lockPool _ | .unlockPool _ => True
  | _ => False

theorem conn?_forget (o : Option File) : File.conn? (o.map (File.forget n)) = File.conn? o := by
  cases o with
  | none => rfl
  | some x => cases x <;> rfl

theorem map_eq_none {o : Option File} (f : File → File) : o.map f = none ↔ o = none :=
  Option.map_eq_none_iff

theorem closed_onInterest (f : Finset Fd → Finset Fd) :
    (s.onInterest t f).file m = none ↔ s.file m = none := by
  rw [St.onInterest_file, Function.update_apply]
  split
  · rename_i he
    rw [he]
    exact map_eq_none _
  · rfl

/-- Such a call leaves the server's own descriptors alone. -/
theorem sameSelf_of_touches (h : exec t a r s = some s') (ha : Touches n a) : SameSelf t s s' := by
  unfold SameSelf
  rw [exec_efd h, exec_listenFd h]
  cases a <;> first | exact ⟨rfl, rfl⟩ | exact ha.elim

/-- **A call touches one number.** -/
theorem sameAt_of_touches (h : exec t a r s = some s') (ha : Touches n a) (hmn : m ≠ n)
    (hn : a = .close n → (File.conn? (s.file n)).isSome) : SameAt t m s s' := by
  have hname : s'.names m = s.names m := by
    rw [exec_names h]
    cases a
    case removeUserName k =>
      obtain rfl : k = n := ha
      exact Function.update_of_ne hmn _ _
    all_goals first | rfl | exact ha.elim
  have hbuffer : (s'.base t).rbuf m = (s.base t).rbuf m := by
    rw [exec_rbuf h]
    cases a
    case clearBuffer k =>
      obtain rfl : k = n := ha
      rw [After.rbuf, if_pos rfl, Function.update_of_ne hmn]
    all_goals first | rfl | exact ha.elim
  have hclosed : s'.file m = none ↔ s.file m = none := by
    rw [exec_file h]
    cases a
    case close k =>
      obtain rfl : k = n := ha
      show (s.closeFile k).file m = none ↔ _
      rw [St.closeFile_file, Function.update_of_ne hmn]
      exact map_eq_none _
    case addClient k => cases r <;> first | rfl | exact closed_onInterest _
    case deleteClient k => cases r <;> first | rfl | exact closed_onInterest _
    all_goals first | rfl | exact ha.elim
  have hconn : File.conn? (s'.file m) = File.conn? (s.file m) := by
    rw [exec_file h]
    cases a
    case close k =>
      obtain rfl : k = n := ha
      show File.conn? ((s.closeFile k).file m) = _
      rw [St.closeFile_file, Function.update_of_ne hmn]
      exact conn?_forget _
    case addClient k => cases r <;> first | rfl | exact St.conn?_onInterest ..
    case deleteClient k => cases r <;> first | rfl | exact St.conn?_onInterest ..
    all_goals first | rfl | exact ha.elim
  have hmember : m ∈ (s'.base t).clients ↔ m ∈ (s.base t).clients := by
    rw [exec_clients h]
    cases a
    case addClient k =>
      obtain rfl : k = n := ha
      rw [After.clients, if_pos rfl]
      split
      · rw [Finset.mem_insert, or_iff_right hmn]
      · rfl
    case deleteClient k =>
      obtain rfl : k = n := ha
      rw [After.clients, if_pos rfl]
      split
      · rw [Finset.mem_erase, and_iff_right hmn]
      · rfl
    all_goals first | rfl | exact ha.elim
  have hregistered : m ∈ s'.registered t ↔ m ∈ s.registered t := by
    have hsame : s'.file = s.file → (m ∈ s'.registered t ↔ m ∈ s.registered t) := by
      intro hf
      unfold St.registered
      rw [hf, (sameSelf_of_touches h ha).1]
    cases a
    case addClient k =>
      obtain rfl : k = n := ha
      rw [registered_addClient h]
      split
      · rw [Finset.mem_insert, or_iff_right hmn]
      · rfl
    case deleteClient k =>
      obtain rfl : k = n := ha
      rw [registered_deleteClient h]
      split
      · rw [Finset.mem_erase, and_iff_right hmn]
      · rfl
    case close k =>
      obtain rfl : k = n := ha
      rw [mem_registered_close h (hn rfl), and_iff_left hmn]
    all_goals first | exact hsame (exec_file h) | exact ha.elim
  exact ⟨hclosed, hconn, hname, hbuffer, hmember, hregistered⟩

end

end ChatChannel
