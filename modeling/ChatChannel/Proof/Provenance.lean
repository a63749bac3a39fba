import ChatChannel.Proof.LobbyCalls
import ChatChannel.Proof.Windows

/-!
# Where the words of a window come from

What a worker sends to a client is a piece of a window of its own channel, and the client is a member at that
moment. Whatever stands in the window came into `mq` in one of four ways (`Backed`): a client's frame said it,
under the name the server has for the client; the lobby announced somebody who joins or leaves; or the worker
deleted a client. So a channel's windows tell of no other channel.
-/

set_option autoImplicit false

namespace ChatChannel

open Conc

/-! ## What a worker's calls rest on -/

/-- `recv_frame` returned the frame. -/
def Unpacked (n : Fd) (f : Bytes) (h : Hist sig) : Prop :=
  ∃ fs : List Bytes, (⟨.decode n, .ok fs⟩ : Call sig) ∈ h ∧ f ∈ fs

/-- What an item of `mq` is due to. -/
inductive Backed (js : Jansson) (c : ChId) (h : Hist sig) : Item → Prop
  /-- A frame of the client says `text`, and `u` is the client's name. -/
  | said {n : Fd} {f target text u : Bytes} {root : js.Json} {ts : Msec64} {y z : Hist sig} :
      h = y ++ ⟨.onFrame n f, ()⟩ :: ⟨.getUserName n, some u⟩ :: z → Unpacked n f y →
      requestOf js f = some (target, root) → isMessage target = true →
      unpackMessage js root = some (text, ts) → Backed js c h (n, ⟨.user, text, ts, u, 0⟩)
  | joins {i : Item} {r : List Item} : (⟨.takeJoinPool, r⟩ : Call sig) ∈ h → i ∈ r → Backed js c h i
  | leaves {i : Item} {r : List Item} : (⟨.takeLeavePool, r⟩ : Call sig) ∈ h → i ∈ r → Backed js c h i
  | deleted {n : Fd} {ts : Msec64} {u : Bytes} {l : List Fd} :
      (⟨.getDeletion, l⟩ : Call sig) ∈ h → n ∈ l → Backed js c h (n, sysMsg c (ascii "leave") ts u)

/-- Since `cur_msgs` and then the clients were read there was nothing but sends. -/
def Airing (cur : List (Msec64 × Item)) (l : List Fd) (h : Hist sig) : Prop :=
  ∃ y w, h = y ++ ⟨.getCurMsgs, cur⟩ :: ⟨.getClients, l⟩ :: w ∧ ∀ e ∈ w, ∃ n b, e.1 = .send n b

/-- The header of a frame, or what is left of its payload. -/
def PartOf (payload b : Bytes) : Prop := b = hexHeader (payload.length % 2 ^ 32) ∨ b <:+ payload

/-- What a call of a worker rests on. -/
def sourceContract (js : Jansson) (c : ChId) : Contract sig where
  before a h :=
    match a with
    | .onFrame n f => Unpacked n f h
    | .pushMq n m => Backed js c h (n, m)
    | .emplaceCurMsg t n m => t = m.timestamp ∧ ∃ q : List Item, (⟨.popMq, q⟩ : Call sig) ∈ h ∧ (n, m) ∈ q
    | .send n b => ∃ cur l dumped, Airing cur l h ∧ n ∈ l ∧ js.dumpArray (windowArray js cur) = some dumped ∧
        PartOf dumped b
    | _ => True
  expects
    | .beginRun, l => l = bootTasks ∨ l = channelTasks
    | _, _ => True

/-- The calls that rest on nothing. -/
def Unfounded : Act → Prop
  | .onFrame _ _ | .pushMq _ _ | .emplaceCurMsg _ _ _ | .send _ _ => False
  | _ => True

/-- What stays true of a history when it goes on. -/
def Lasting (φ : Hist sig → Prop) : Prop := ∀ h e, φ h → φ (h ++ [e])

section

variable {P : Params} {js : Jansson} {c : ChId} {a : Act} {α : Type} {p : Code α} {φ : Hist sig → Prop}
  {h : Hist sig} {n : Fd}

theorem Unpacked.append {f : Bytes} (hd : Unpacked n f h) (e : Call sig) : Unpacked n f (h ++ [e]) := by
  obtain ⟨fs, hfs, hf⟩ := hd
  exact ⟨fs, List.mem_append_left _ hfs, hf⟩

theorem Backed.append {i : Item} (hb : Backed js c h i) (e : Call sig) : Backed js c (h ++ [e]) i := by
  cases hb with
  | @said n f target text u root ts y z hs hd hq hm hu =>
    refine .said (z := z ++ [e]) ?_ hd hq hm hu
    rw [hs, List.append_assoc]
    rfl
  | joins hr hi => exact .joins (List.mem_append_left _ hr) hi
  | leaves hr hi => exact .leaves (List.mem_append_left _ hr) hi
  | deleted hl hn => exact .deleted (List.mem_append_left _ hl) hn

theorem Airing.send {cur : List (Msec64 × Item)} {l : List Fd} (ha : Airing cur l h) {e : Call sig}
    (he : ∃ n b, e.1 = .send n b) : Airing cur l (h ++ [e]) := by
  obtain ⟨y, w, rfl, hw⟩ := ha
  refine ⟨y, w ++ [e], List.append_assoc .., fun d hd => ?_⟩
  rcases List.mem_append.mp hd with hd | hd
  · exact hw d hd
  · rw [List.mem_singleton.mp hd]
    exact he

theorem lasting_mem (e : Call sig) : Lasting fun h => e ∈ h := fun _ _ he => List.mem_append_left _ he

theorem lasting_true : Lasting fun _ => True := fun _ _ _ => trivial

theorem Unfounded.before (ha : Unfounded a) (h : Hist sig) : (sourceContract js c).before a h := by
  cases a <;> first | exact trivial | exact ha.elim

theorem unfounded_keep (hφ : Lasting φ) (hp : p.All Unfounded) :
    Abides (sourceContract js c) φ p (fun _ => φ) fun _ => φ :=
  .keep hp (fun _ h ha _ => ha.before h) fun _ _ _ _ _ hs => hφ _ _ hs

theorem unfounded_ask {E : Err → Hist sig → Prop} (ha : Unfounded a) :
    Abides (sourceContract js c) φ (call a) (fun r h => ∃ y, h = y ++ [⟨a, r⟩] ∧ φ y) E :=
  .perform (fun h _ => ha.before h) fun _ h _ hs => ⟨h, rfl, hs⟩

/-! ## Requests -/

/-- A message is pushed right after the client's name was read. -/
theorem source_chatOnReq {f target : Bytes} {root : js.Json} (hq : requestOf js f = some (target, root)) :
    Abides (sourceContract js c) (fun h => ∃ y, h = y ++ [⟨.onFrame n f, ()⟩] ∧ Unpacked n f y)
      (chatOnReq js n target root) (fun _ _ => True) fun _ _ => True := by
  unfold chatOnReq
  split
  · rename_i hm
    cases hu : unpackMessage js root with
    | none => exact .ret fun _ _ => trivial
    | some q =>
      refine .bind (unfounded_ask trivial) fun o => ?_
      cases o with
      | none => exact .ret fun _ _ => trivial
      | some u =>
        refine .perform (fun h hs => ?_) fun _ _ _ _ => trivial
        obtain ⟨y, rfl, x, rfl, hd⟩ := hs
        refine .said (f := f) (y := x) (z := []) ?_ hd hq hm hu
        rw [List.append_assoc]
        rfl
  · exact .ret fun _ _ => trivial

theorem source_onFrame {f : Bytes} : Abides (sourceContract P.js c) (Unpacked n f) (onFrame P (.chan c) n f)
    (fun _ _ => True) fun _ _ => True := by
  refine .bind (Q := fun _ h => ∃ y, h = y ++ [⟨.onFrame n f, ()⟩] ∧ Unpacked n f y) ?_ fun _ => ?_
  · exact .perform (fun _ hd => hd) fun _ h _ hd => ⟨h, rfl, hd⟩
  · cases hq : requestOf P.js f with
    | none => exact .ret fun _ _ => trivial
    | some q =>
      dsimp only
      unfold channelOnReq
      split
      · exact source_chatOnReq hq
      · -- a join request is reported to the lobby, and nothing is said
        refine (unfounded_keep lasting_true ?_).pre fun _ _ => trivial
        split
        · cases unpackChannelJoin P.js q.2 with
          | none => trivial
          | some r =>
            dsimp only
            split
            · trivial
            · exact .bind (.perform trivial) fun _ => .perform trivial
        · trivial

theorem source_onRecv : Abides (sourceContract P.js c) (fun _ => True) (onRecv P (.chan c) n) (fun _ _ => True)
    fun _ _ => True := by
  have hloop : ∀ k, (recvLoop n k).All Unfounded := by
    intro k
    induction k with
    | zero => exact .perform trivial
    | succ k ih =>
      refine .bind (.perform trivial) fun r => ?_
      cases r with
      | chunk b =>
        dsimp only
        split
        · trivial
        · exact ih
      | again => trivial
      | fin => trivial
      | error => trivial
  have hread : Abides (sourceContract P.js c) (fun _ => True) (recvFrame P n)
      (fun fs h => ∀ f ∈ fs, Unpacked n f h) fun _ _ => True := by
    refine .bind (unfounded_keep lasting_true (hloop _)) fun _ => .bind (unfounded_ask trivial) fun r => ?_
    cases r with
    | error e => exact .raise fun _ _ => trivial
    | ok fs =>
      refine .ret fun h hs f hf => ?_
      obtain ⟨y, rfl, -⟩ := hs
      exact ⟨fs, by simp, hf⟩
  have hframes (fs : List Bytes) : Abides (sourceContract P.js c) (fun h => ∀ f ∈ fs, Unpacked n f h)
      (Prog.forEach (onFrame P (.chan c) n) fs) (fun _ _ => True) fun _ _ => True := by
    refine (Abides.forEach_rest (I := fun gs h => ∀ f ∈ gs, Unpacked n f h) (fun f gs => ?_) fs).conseq
      (fun _ h => h) (fun _ _ _ => trivial) fun _ _ h => h
    have hlast : ∀ h e, (∀ g ∈ gs, Unpacked n g h) → ∀ g ∈ gs, Unpacked n g (h ++ [e]) :=
      fun h e hs g hg => (hs g hg).append e
    refine (source_onFrame.frame hlast).conseq (fun h hs => ?_) (fun _ _ hs => hs.2) fun _ _ _ => trivial
    exact ⟨hs f List.mem_cons_self, fun g hg => hs g (List.mem_cons_of_mem f hg)⟩
  refine .handle (.bind hread fun fs => .bind (hframes fs) fun _ => ?_) fun _ => ?_
  · exact unfounded_keep lasting_true (.perform trivial)
  · exact unfounded_keep lasting_true (.bind (.perform trivial) fun _ => .perform trivial)

/-! ## Tasks -/

/-- Everything that is pushed in a loop over a list is due to the list. -/
theorem source_each {β : Type} {f : β → Code Unit} {l : List β} {φ : Hist sig → Prop} (hφ : Lasting φ)
    (hf : ∀ x ∈ l, Abides (sourceContract js c) φ (f x) (fun _ _ => True) fun _ _ => True) :
    Abides (sourceContract js c) φ (Prog.forEach f l) (fun _ _ => True) fun _ _ => True := by
  induction l with
  | nil => exact .ret fun _ _ => trivial
  | cons x l ih =>
    have hx : Abides (sourceContract js c) φ (f x) (fun _ => φ) fun _ _ => True :=
      ((hf x List.mem_cons_self).frame hφ).conseq (fun _ h => ⟨h, h⟩) (fun _ _ h => h.2) fun _ _ _ => trivial
    exact .bind hx fun _ => ih fun y hy => hf y (List.mem_cons_of_mem x hy)

theorem source_push {i : Item} (hi : ∀ h, φ h → Backed js c h i) {E : Err → Hist sig → Prop} :
    Abides (sourceContract js c) φ (call (.pushMq i.1 i.2)) (fun _ _ => True) E :=
  .perform (fun h hs => hi h hs) fun _ _ _ _ => trivial

theorem source_resolvePoolBody : Abides (sourceContract js c) (fun _ => True) (resolvePoolBody c)
    (fun _ _ => True) fun _ _ => True := by
  have hlet (joins : List Item) : ∀ i ∈ joins, Abides (sourceContract js c)
      (fun h => (⟨.takeJoinPool, joins⟩ : Call sig) ∈ h) (admitOne i) (fun _ _ => True) fun _ _ => True := by
    intro i hi
    refine .handle (E := fun _ _ => True) (.bind (Q := fun _ h => (⟨.takeJoinPool, joins⟩ : Call sig) ∈ h) ?_ fun _ =>
      source_push fun h hs => .joins hs hi) fun _ => .ret fun _ _ => trivial
    refine (unfounded_keep (lasting_mem _) ?_).conseq (fun _ h => h) (fun _ _ h => h) fun _ _ _ => trivial
    refine .bind (.perform trivial) fun r => ?_
    cases r <;> trivial
  have hdismiss (leaves : List Item) : ∀ i ∈ leaves, Abides (sourceContract js c)
      (fun h => (⟨.takeLeavePool, leaves⟩ : Call sig) ∈ h) (dismissOne i) (fun _ _ => True) fun _ _ => True := by
    intro i hi
    refine .handle (E := fun _ _ => True) (.bind (Q := fun _ h => (⟨.takeLeavePool, leaves⟩ : Call sig) ∈ h) ?_ fun _ =>
      source_push fun h hs => .leaves hs hi) fun _ => .ret fun _ _ => trivial
    exact (unfounded_keep (lasting_mem _) (all_trackerDelete trivial)).conseq (fun _ h => h) (fun _ _ h => h)
      fun _ _ _ => trivial
  refine .bind (unfounded_ask trivial) fun joins => .bind (Q := fun _ _ => True) ?_ fun _ =>
    .bind (unfounded_ask trivial) fun leaves => .bind (Q := fun _ _ => True) ?_ fun _ => ?_
  · refine (source_each (lasting_mem _) (hlet joins)).pre fun h hs => ?_
    obtain ⟨y, rfl, -⟩ := hs
    simp
  · refine (source_each (lasting_mem _) (hdismiss leaves)).pre fun h hs => ?_
    obtain ⟨y, rfl, -⟩ := hs
    simp
  · refine unfounded_keep lasting_true (.bind (.perform trivial) fun k => ?_)
    split
    · refine .bind (.perform trivial) fun b => ?_
      cases b with
      | true => exact .bind (.perform trivial) fun _ => .bind (.perform trivial) fun _ => .perform trivial
      | false => trivial
    · trivial

theorem source_resolveDeletion : Abides (sourceContract js c) (fun _ => True) (channelResolveDeletion c)
    (fun _ _ => True) fun _ _ => True := by
  have hone (l : List Fd) : ∀ n ∈ l, Abides (sourceContract js c) (fun h => (⟨.getDeletion, l⟩ : Call sig) ∈ h) (do
      call (.setCursor (some n))
      let timestamp ← call .systemNow
      let userName ← call (.getUserName n)
      call (.pushMq n (sysMsg c (ascii "leave") timestamp (userName.getD (ascii "unknown"))))
      tryCatch (trackerDelete n) fun _ => pure ()
      call (.removeUserName n)
      call (.close n)
      call (.clearBuffer n)) (fun _ _ => True) fun _ _ => True := by
    intro n hn
    have hask {a : Act} (ha : Unfounded a) : Abides (sourceContract js c) (fun h => (⟨.getDeletion, l⟩ : Call sig) ∈ h)
        (call a) (fun _ h => (⟨.getDeletion, l⟩ : Call sig) ∈ h) fun _ _ => True :=
      .perform (fun h _ => ha.before h) fun _ _ _ hs => List.mem_append_left _ hs
    refine .bind (hask trivial) fun _ => .bind (hask trivial) fun ts => .bind (hask trivial) fun u =>
      .bind (source_push fun h hs => .deleted hs hn) fun _ => unfounded_keep lasting_true ?_
    exact .bind (.handle (all_trackerDelete trivial) fun _ => trivial) fun _ => .bind (.perform trivial) fun _ =>
      .bind (.perform trivial) fun _ => .perform trivial
  refine .bind (unfounded_ask trivial) fun l => .bind (Q := fun _ _ => True) ?_ fun _ =>
    unfounded_keep lasting_true (.perform trivial)
  refine (source_each (lasting_mem _) (hone l)).pre fun h hs => ?_
  obtain ⟨y, rfl, -⟩ := hs
  simp

/-- Sends of parts of a frame to clients of a list. -/
def Addressed (l : List Fd) (payload : Bytes) : Act → Prop
  | .send n b => n ∈ l ∧ PartOf payload b
  | _ => False

theorem parts_sendFrame {l : List Fd} (hn : n ∈ l) (payload : Bytes) : (sendFrame n payload).All (Addressed l payload) := by
  have hrest : ∀ {k : Nat} {rest : Bytes}, rest <:+ payload → (sendRest n k rest).All (Addressed l payload) := by
    intro k
    induction k with
    | zero => exact fun _ => trivial
    | succ k ih =>
      intro rest hs
      unfold sendRest
      split
      · trivial
      · refine .bind (.perform ⟨hn, .inr hs⟩) fun o => ?_
        rcases o with _ | _ | m
        · trivial
        · trivial
        · exact ih ((List.drop_suffix _ _).trans hs)
  unfold sendFrame
  dsimp only
  split
  · trivial
  · split
    · trivial
    · refine .bind (.perform ⟨hn, .inl rfl⟩) fun o => ?_
      split
      · exact hrest List.suffix_rfl
      · trivial

theorem parts_broadcast (payload : Bytes) : ∀ l : List Fd, (broadcast payload l).All (Addressed l payload)
  | [] => trivial
  | n :: l => by
    have hmore : (broadcast payload l).All (Addressed (n :: l) payload) := (parts_broadcast payload l).mono fun a ha => by
      cases a <;> first | exact ⟨List.mem_cons_of_mem n ha.1, ha.2⟩ | exact ha.elim
    exact .bind (.handle (.bind (parts_sendFrame List.mem_cons_self payload) fun _ => trivial) fun _ => trivial)
      fun _ => .bind hmore fun _ => trivial

theorem source_chatTask : Abides (sourceContract js c) (fun _ => True) (chatTask js) (fun _ _ => True)
    fun _ _ => True := by
  have hsort (q : List Item) : ∀ i ∈ q, Abides (sourceContract js c) (fun h => (⟨.popMq, q⟩ : Call sig) ∈ h)
      (call (.emplaceCurMsg i.2.timestamp i.1 i.2)) (fun _ _ => True) fun _ _ => True :=
    fun i hi => .perform (fun h hs => ⟨rfl, q, hs, hi⟩) fun _ _ _ _ => trivial
  have hair (cur : List (Msec64 × Item)) (l : List Fd) (dumped : Bytes)
      (hd : js.dumpArray (windowArray js cur) = some dumped) : Abides (sourceContract js c) (Airing cur l)
      (broadcast dumped l) (fun _ => Airing cur l) fun _ => Airing cur l := by
    refine .keep (parts_broadcast dumped l) (fun a h ha hs => ?_) fun a r h ha _ hs => ?_
    · cases a <;> first | exact ⟨cur, l, dumped, hs, ha.1, hd, ha.2⟩ | exact ha.elim
    · refine hs.send ?_
      cases a <;> first | exact ⟨_, _, rfl⟩ | exact ha.elim
  refine .bind (Q := fun _ _ => True) (.bind (unfounded_ask trivial) fun q => ?_) fun _ =>
    .bind (unfounded_ask trivial) fun cur => ?_
  · refine (source_each (lasting_mem _) (hsort q)).pre fun h hs => ?_
    obtain ⟨y, rfl, -⟩ := hs
    simp
  · cases hd : js.dumpArray (windowArray js cur) with
    | none =>
      rw [show js.dumpArray (cur.filterMap fun p => js.pack (windowEntry p.1 p.2.2)) = none from hd]
      exact .ret fun _ _ => trivial
    | some dumped =>
      rw [show js.dumpArray (cur.filterMap fun p => js.pack (windowEntry p.1 p.2.2)) = some dumped from hd]
      refine .bind (unfounded_ask trivial) fun l => .bind (Q := fun _ => Airing cur l) ?_ fun failed => ?_
      · refine (hair cur l dumped hd).conseq (fun h hs => ?_) (fun _ _ h => h) fun _ _ _ => trivial
        obtain ⟨y, rfl, x, rfl, -⟩ := hs
        exact ⟨x, [], by rw [List.append_assoc]; rfl, fun e he => by cases he⟩
      · exact (unfounded_keep lasting_true (.forEach (fun _ => .perform trivial) failed)).pre fun _ _ => trivial

theorem source_task {x : Task} (hx : x ∈ channelTasks.flatten) : Abides (sourceContract P.js c) (fun _ => True)
    (runTask P (.chan c) x) (fun _ _ => True) fun _ _ => True := by
  have hmem : x = .clearDeletion ∨ x = .clearCurMsgs ∨ x = .polling ∨ x = .handleEvents ∨ x = .resolvePool ∨
      x = .chat ∨ x = .resolveDeletion := by
    simpa [channelTasks] using hx
  rcases hmem with rfl | rfl | rfl | rfl | rfl | rfl | rfl
  · exact unfounded_keep lasting_true (.perform trivial)
  · exact unfounded_keep lasting_true (.perform trivial)
  · refine unfounded_keep lasting_true (.bind (.perform trivial) fun o => ?_)
    cases o <;> trivial
  · refine .bind (Q := fun _ _ => True) (unfounded_keep lasting_true (.perform trivial)) fun evs => .forEach (fun ev => ?_) evs
    refine .bind (Q := fun _ _ => True) (unfounded_keep lasting_true (.perform trivial)) fun b => ?_
    cases b with
    | true =>
      refine unfounded_keep lasting_true (.bind (.perform trivial) fun o => ?_)
      cases o <;> trivial
    | false =>
      simp only [Bool.false_eq_true, if_false]
      split
      · exact unfounded_keep lasting_true (.perform trivial)
      · split
        · exact source_onRecv
        · exact .ret fun _ h => h
  · refine .bind (Q := fun _ _ => True) (unfounded_keep lasting_true (.perform trivial)) fun _ =>
      .bind (Q := fun _ _ => True) (.handle source_resolvePoolBody fun e => ?_) fun _ =>
        unfounded_keep lasting_true (.perform trivial)
    exact unfounded_keep lasting_true (.bind (.perform trivial) fun _ => trivial)
  · exact source_chatTask
  · exact source_resolveDeletion

/-- A worker's thread, round after round. -/
theorem source_worker : Abides (sourceContract P.js c) (fun _ => True) (proc P (.chan c)) (fun _ _ => True)
    fun _ _ => False := by
  have hall (l : List (List Task)) (hl : ∀ x ∈ l.flatten, x ∈ channelTasks.flatten) : Abides (sourceContract P.js c)
      (fun _ => True) (Prog.forEach (Prog.forEach (runTask P (.chan c))) l) (fun _ _ => True) fun _ _ => True :=
    source_each lasting_true fun s hs => source_each lasting_true fun x hx =>
      source_task (hl x (List.mem_flatten.mpr ⟨s, hs, hx⟩))
  refine .bind (Q := fun _ _ => True) (.perform (fun h _ => trivial) fun _ _ _ _ => trivial) fun b => ?_
  cases b with
  | true => exact .perform (fun _ _ => trivial) fun _ _ _ _ => trivial
  | false =>
    refine .handle (E := fun _ _ => True) (.bind (Q := fun l h => (l = bootTasks ∨ l = channelTasks) ∧ True) ?_ fun l =>
      .pure fun hl => .bind (Q := fun _ _ => True) (.handle (hall l fun x hx => ?_) fun _ => ?_) fun _ => ?_) fun _ => .ret fun _ _ => trivial
    · exact .perform (fun _ _ => trivial) fun l h hl _ => ⟨hl, trivial⟩
    · rcases hl with rfl | rfl
      · revert x
        decide
      · exact hx
    · exact unfounded_keep lasting_true (.bind (.perform trivial) fun _ => trivial)
    · exact .perform (fun _ _ => trivial) fun _ _ _ _ => trivial

end

/-! ## The lobby's announcements -/

/-- What the lobby enters into the pools of a channel tells of that channel. -/
def Announces : Act → Prop
  | .emplaceJoin c _ m => ∃ text ts u, (text = ascii "join" ∨ text = ascii "rejoin") ∧ m = sysMsg c text ts u
  | .emplaceLeave c _ m => ∃ ts u, m = sysMsg c (ascii "leave") ts u
  | _ => True

section

variable {P : Params}

theorem announces_of_routine {a : Act} (ha : Routine a) : Announces a := by
  cases a <;> first | exact trivial | exact ha.elim

theorem announces_of_checking {a : Act} (ha : Checking a) : Announces a := by
  rcases ha with ha | ha
  · exact announces_of_routine ha
  · cases a <;> first | exact trivial | exact ha.elim

theorem announces_joinAndLogging (c : ChId) (n : Fd) (ts : Msec64) (re : Bool) :
    (joinAndLogging c n ts re).All Announces := by
  refine .handle (.bind (.perform trivial) fun o => ?_) fun _ => trivial
  cases o with
  | none => trivial
  | some u =>
    have hentry : Announces (.emplaceJoin c n (sysMsg c (if re then ascii "rejoin" else ascii "join") ts u)) := by
      refine ⟨_, ts, u, ?_, rfl⟩
      cases re with
      | true => exact .inr rfl
      | false => exact .inl rfl
    refine .bind (.perform trivial) fun b => ?_
    cases b with
    | false => exact .perform hentry
    | true =>
      have hstart : (do
          unless ← call (.startWorker c) do throw Err.threadFailed
          call (.storeStop c false)
          call (.storeEmptySince c 0)
          call (.emplaceJoin c n (sysMsg c (if re then ascii "rejoin" else ascii "join") ts u)) :
            Code Unit).All Announces := by
        refine .bind (.perform trivial) fun b => ?_
        cases b with
        | false => trivial
        | true => exact .bind (.perform trivial) fun _ => .bind (.perform trivial) fun _ => .perform hentry
      refine .bind (.perform trivial) fun b => ?_
      cases b with
      | false => exact hstart
      | true => exact .bind (.perform trivial) fun _ => hstart

theorem announces_leaveAndLogging (c : ChId) (n : Fd) (ts : Msec64) : (leaveAndLogging c n ts).All Announces := by
  refine .handle (.bind (.perform trivial) fun o => ?_) fun _ => trivial
  cases o with
  | none => exact .perform trivial
  | some u => exact .perform ⟨ts, u, rfl⟩

theorem announces_task {x : Task} (hx : x ∈ lobbyTasks.flatten) : (runTask P .lobby x).All Announces := by
  by_cases hhouse : x = .housekeeping
  · subst hhouse
    refine .bind (.perform trivial) fun now => .bind (.perform trivial) fun last => ?_
    split
    · trivial
    · exact .bind (.perform trivial) fun _ => .bind (checking_checkLobby.mono fun _ => announces_of_checking) fun _ =>
        checking_checkChannels.mono fun _ => announces_of_checking
  · exact all_lobbyTask (fun _ => announces_of_routine) announces_joinAndLogging announces_leaveAndLogging hx hhouse

end

/-! ## What a run has of a channel -/

/-- What calls rest on: for the lobby, on nothing it did before. -/
def sourceOf (js : Jansson) : Srv → Contract sig
  | .lobby => ⟨fun a _ => Announces a, lobbyContract.expects⟩
  | .chan c => sourceContract js c

variable {P : Params} {x tr : List Ev} {t : Srv} {a : Act} {r : Res a} {s s' : St} {cf : Config sig Srv St}
  {c : ChId}

theorem source_run (h : (server P).Run (init P) tr cf) :
    ∀ x e y, tr = x ++ e :: y → (sourceOf P.js e.tid).before e.act (Sys.own e.tid x) := by
  have hlobby : Abides (sourceOf P.js .lobby) (fun _ => True) (proc P .lobby) (fun _ _ => True) fun _ _ => False := by
    have hkeep {α : Type} {p : Code α} (hp : p.All Announces) : Abides (sourceOf P.js .lobby) (fun _ => True) p
        (fun _ _ => True) fun _ _ => True := .keep hp (fun _ _ ha _ => ha) fun _ _ _ _ _ _ => trivial
    refine .bind (Q := fun _ _ => True) (.perform (fun _ _ => trivial) fun _ _ _ _ => trivial) fun b => ?_
    cases b with
    | false => exact .ret fun _ _ => trivial
    | true =>
      refine .handle (E := fun _ _ => True) (.bind (Q := fun l h => l = lobbyTasks ∧ True) ?_ fun l => .pure fun hl =>
        hkeep ?_) fun _ => .ret fun _ _ => trivial
      · exact .perform (fun _ _ => trivial) fun l h hl _ => ⟨hl, trivial⟩
      · subst hl
        refine .bind (.handle ?_ fun e => .bind (.perform trivial) fun _ => trivial) fun _ => .perform trivial
        exact .forEach_mem fun l hl => .forEach_mem fun x hx => announces_task (List.mem_flatten.mpr ⟨l, hl, hx⟩)
  have hbody (t : Srv) : Abides (sourceOf P.js t) (fun _ => True) ((server P).body t) (fun _ _ => True)
      fun _ _ => False := by
    cases t with
    | lobby => exact hlobby
    | chan d => exact source_worker
  refine (h.abides (K := sourceOf P.js) (L := fun _ _ => True) (fun _ => trivial) hbody fun e he => ?_).2
  have hans := expects_run h e he
  obtain ⟨t, a, r, s, s'⟩ := e
  cases t with
  | lobby => exact hans
  | chan d => cases a <;> exact hans

/-- What becomes of the lists of a channel: entries are made by the calls for it, and by no others. -/
theorem mq_before {i : Item} (h : exec t a r s = some s') (hi : i ∈ (s'.chan c).mq) :
    i ∈ (s.chan c).mq ∨ own t = c ∧ a = .pushMq i.1 i.2 := by
  rw [exec_mq h] at hi
  cases a
  case pushMq n m =>
    simp only [After.mq] at hi
    split at hi
    · rename_i hc
      rcases List.mem_append.mp hi with hi | hi
      · exact .inl hi
      · rw [List.mem_singleton.mp hi]
        exact .inr ⟨hc.symm, rfl⟩
    · exact .inl hi
  case popMq | newTracker | dropTracker =>
    simp only [After.mq] at hi
    split at hi
    · cases hi
    · exact .inl hi
  all_goals exact .inl hi

theorem curMsgs_before {p : Msec64 × Item} (h : exec t a r s = some s') (hp : p ∈ (s'.chan c).curMsgs) :
    p ∈ (s.chan c).curMsgs ∨ own t = c ∧ a = .emplaceCurMsg p.1 p.2.1 p.2.2 := by
  rw [exec_curMsgs h] at hp
  cases a
  case emplaceCurMsg ts n m =>
    simp only [After.curMsgs] at hp
    split at hp
    · rename_i hc
      rcases List.mem_cons.mp ((multimapEmplace_perm ts (n, m) _).mem_iff.mp hp) with rfl | hp
      · exact .inr ⟨hc.symm, rfl⟩
      · exact .inl hp
    · exact .inl hp
  case clearCurMsgs | newTracker | dropTracker =>
    simp only [After.curMsgs] at hp
    split at hp
    · cases hp
    · exact .inl hp
  all_goals exact .inl hp

theorem mem_emplace {κ ν : Type} [DecidableEq κ] {k : κ} {v : ν} {l : List (κ × ν)} {p : κ × ν}
    (hp : p ∈ emplace k v l) : p ∈ l ∨ p = (k, v) := by
  unfold emplace at hp
  split at hp
  · exact .inl hp
  · exact (List.mem_append.mp hp).imp_right List.mem_singleton.mp

theorem joinPool_before {i : Item} (h : exec t a r s = some s') (hi : i ∈ (s'.chan c).joinPool) :
    i ∈ (s.chan c).joinPool ∨ a = .emplaceJoin c i.1 i.2 := by
  rw [exec_joinPool h] at hi
  cases a
  case emplaceJoin d n m =>
    simp only [After.joinPool] at hi
    split at hi
    · rename_i hc
      rcases mem_emplace hi with hi | rfl
      · exact .inl hi
      · exact .inr (by rw [hc])
    · exact .inl hi
  case takeJoinPool | newTracker | dropTracker =>
    simp only [After.joinPool] at hi
    split at hi
    · cases hi
    · exact .inl hi
  all_goals exact .inl hi

theorem leavePool_before {i : Item} (h : exec t a r s = some s') (hi : i ∈ (s'.chan c).leavePool) :
    i ∈ (s.chan c).leavePool ∨ a = .emplaceLeave c i.1 i.2 := by
  rw [exec_leavePool h] at hi
  cases a
  case emplaceLeave d n m =>
    simp only [After.leavePool] at hi
    split at hi
    · rename_i hc
      rcases mem_emplace hi with hi | rfl
      · exact .inl hi
      · exact .inr (by rw [hc])
    · exact .inl hi
  case takeLeavePool | newTracker | dropTracker =>
    simp only [After.leavePool] at hi
    split at hi
    · cases hi
    · exact .inl hi
  all_goals exact .inl hi

/-- While its worker runs, only the worker touches what a channel has on the air. -/
theorem air_unchanged (hp : Pre P t a s) (h : exec t a r s = some s') (ht : t ≠ .chan c)
    (hrun : (s.chan c).worker = .running) : (s'.chan c).worker = .running ∧
      (s'.base (.chan c)).clients = (s.base (.chan c)).clients ∧ (s'.chan c).curMsgs = (s.chan c).curMsgs := by
  rw [exec_worker h, exec_clients h, exec_curMsgs h]
  cases t with
  | lobby =>
    have hgone {φ : Prop} {d : ChId} (habs : (s.chan d).worker = .absent) (hd : c = d) : φ := by
      rw [← hd, hrun] at habs
      cases habs
    cases a
    case newTracker d m =>
      have hd : c ≠ d := fun hd => hgone hp.2.1 hd
      simp [After.worker, After.clients, After.curMsgs, hrun, hd]
    case dropTracker d =>
      have hd : c ≠ d := fun hd => hgone hp.1 hd
      simp [After.worker, After.clients, After.curMsgs, hrun, hd]
    case joinWorker d =>
      have hd : c ≠ d := by
        rintro rfl
        have hended : (s.chan c).worker = .ended := (need_eq_some.mp h).1
        rw [hrun] at hended
        cases hended
      simp [After.worker, After.clients, After.curMsgs, hrun, hd]
    case startWorker d => cases r <;> simp [After.worker, After.clients, After.curMsgs, hrun]
    case addClient n => cases r <;> simp [After.worker, After.clients, After.curMsgs, hrun]
    case deleteClient n => cases r <;> simp [After.worker, After.clients, After.curMsgs, hrun]
    case exitThread | clearCurMsgs | emplaceCurMsg => exact hp.elim
    all_goals exact ⟨hrun, rfl, rfl⟩
  | chan d =>
    have hd : d ≠ c := fun hd => ht (by rw [hd])
    have hv : Srv.chan c ≠ .chan d := fun hv => hd (by cases hv; rfl)
    cases a
    case newTracker | dropTracker | joinWorker | startWorker => exact hp.2.elim
    case addClient n => cases r <;> simp [After.worker, After.clients, After.curMsgs, hrun, hv]
    case deleteClient n => cases r <;> simp [After.worker, After.clients, After.curMsgs, hrun, hv]
    case exitThread | clearCurMsgs | emplaceCurMsg =>
      simp [After.worker, After.clients, After.curMsgs, own, hrun, Ne.symm hd]
    all_goals exact ⟨hrun, rfl, rfl⟩

/-- Where the contents of a channel's lists come from, and that what its worker has on the air is still so. -/
structure Stocked (c : ChId) (x : List Ev) (s : St) : Prop where
  queue : ∀ i ∈ (s.chan c).mq, (⟨.pushMq i.1 i.2, ()⟩ : Call sig) ∈ Sys.own (.chan c) x
  popped : ∀ q : List Item, (⟨.popMq, q⟩ : Call sig) ∈ Sys.own (.chan c) x → ∀ i ∈ q,
    (⟨.pushMq i.1 i.2, ()⟩ : Call sig) ∈ Sys.own (.chan c) x
  window : ∀ p ∈ (s.chan c).curMsgs, (⟨.emplaceCurMsg p.1 p.2.1 p.2.2, ()⟩ : Call sig) ∈ Sys.own (.chan c) x
  joins : ∀ i ∈ (s.chan c).joinPool, (⟨.emplaceJoin c i.1 i.2, ()⟩ : Call sig) ∈ Sys.own .lobby x
  taken : ∀ q : List Item, (⟨.takeJoinPool, q⟩ : Call sig) ∈ Sys.own (.chan c) x → ∀ i ∈ q,
    (⟨.emplaceJoin c i.1 i.2, ()⟩ : Call sig) ∈ Sys.own .lobby x
  leaves : ∀ i ∈ (s.chan c).leavePool, (⟨.emplaceLeave c i.1 i.2, ()⟩ : Call sig) ∈ Sys.own .lobby x
  left : ∀ q : List Item, (⟨.takeLeavePool, q⟩ : Call sig) ∈ Sys.own (.chan c) x → ∀ i ∈ q,
    (⟨.emplaceLeave c i.1 i.2, ()⟩ : Call sig) ∈ Sys.own .lobby x
  read : ∀ cur y, Sys.own (.chan c) x = y ++ [⟨.getCurMsgs, cur⟩] →
    (s.chan c).worker = .running ∧ cur = (s.chan c).curMsgs
  airing : ∀ cur l, Airing cur l (Sys.own (.chan c) x) →
    (s.chan c).worker = .running ∧ cur = (s.chan c).curMsgs ∧ l.toFinset = (s.base (.chan c)).clients

theorem stocked_init (c : ChId) : Stocked c [] (init P) where
  queue := fun i hi => by cases hi
  popped := fun q hq => by cases hq
  window := fun p hp => by cases hp
  joins := fun i hi => by cases hi
  taken := fun q hq => by cases hq
  leaves := fun i hi => by cases hi
  left := fun q hq => by cases hq
  read := fun cur y hy => by cases y <;> cases hy
  airing := fun cur l ha => by
    obtain ⟨y, w, hs, -⟩ := ha
    cases y <;> cases hs

theorem airing_snoc {cur : List (Msec64 × Item)} {l : List Fd} {h : Hist sig} {e : Call sig}
    (ha : Airing cur l (h ++ [e])) : (∃ n b, e.1 = .send n b) ∧ Airing cur l h ∨
      e = ⟨.getClients, l⟩ ∧ ∃ y, h = y ++ [⟨.getCurMsgs, cur⟩] := by
  obtain ⟨y, w, hs, hw⟩ := ha
  rcases List.eq_nil_or_concat w with rfl | ⟨w, d, rfl⟩
  · have hlast : h ++ [e] = (y ++ [⟨.getCurMsgs, cur⟩]) ++ [⟨.getClients, l⟩] := by
      rw [hs, List.append_assoc]
      rfl
    obtain ⟨rfl, he⟩ := List.append_inj' hlast rfl
    cases he
    exact .inr ⟨rfl, y, rfl⟩
  · rw [List.concat_eq_append] at hs hw
    have hlast : h ++ [e] = (y ++ ⟨.getCurMsgs, cur⟩ :: ⟨.getClients, l⟩ :: w) ++ [d] := by
      rw [hs, List.append_assoc]
      rfl
    obtain ⟨rfl, he⟩ := List.append_inj' hlast rfl
    cases he
    exact .inl ⟨hw e (by simp), y, w, rfl, fun d hd => hw d (List.mem_append_left _ hd)⟩

theorem mem_own_snoc {v : Srv} {d : Call sig} {e : Ev} (hd : d ∈ Sys.own v (x ++ [e])) :
    d ∈ Sys.own v x ∨ e.tid = v ∧ (⟨e.act, e.res⟩ : Call sig) = d := by
  by_cases hv : e.tid = v
  · rw [← hv, Sys.own_snoc_self, List.mem_append, List.mem_singleton] at hd
    rw [← hv]
    exact hd.imp_right fun hd => ⟨rfl, hd.symm⟩
  · rw [Sys.own_snoc_ne x hv] at hd
    exact .inl hd

theorem own_mono {v : Srv} {d : Call sig} (hd : d ∈ Sys.own v x) (e : Ev) : d ∈ Sys.own v (x ++ [e]) := by
  rw [Sys.own_append]
  exact List.mem_append_left _ hd

theorem own_new {t : Srv} {a : Act} {r : Res a} {s s' : St} :
    (⟨a, r⟩ : Call sig) ∈ Sys.own t (x ++ [⟨t, a, r, s, s'⟩]) := by
  rw [Sys.own_snoc_self x ⟨t, a, r, s, s'⟩]
  exact List.mem_append_right _ List.mem_cons_self

/-- Calls on `mq`, on the windows and on what is on the air are the worker's, entries in pools the lobby's. -/
theorem worker_of_own (hp : Pre P t a s) (ht : own t = c) (ha : t = .lobby → ¬ LobbyPre P s a) : t = .chan c := by
  cases t with
  | lobby => exact absurd hp (ha rfl)
  | chan d => rw [show d = c from ht]

theorem Stocked.step (hi : Stocked c x s) (hp : Pre P t a s) (hx : exec t a r s = some s') :
    Stocked c (x ++ [⟨t, a, r, s, s'⟩]) s' where
  queue := by
    intro i hmem
    rcases mq_before hx hmem with hmem | ⟨ht, rfl⟩
    · exact own_mono (hi.queue i hmem) _
    · obtain rfl := worker_of_own hp ht fun _ h => h
      exact own_new
  popped := by
    intro q hq i hmem
    rcases mem_own_snoc hq with hq | ⟨rfl, hd⟩
    · exact own_mono (hi.popped q hq i hmem) _
    · cases hd
      rw [(need_eq_some.mp hx).1] at hmem
      exact own_mono (hi.queue i hmem) _
  window := by
    intro p hmem
    rcases curMsgs_before hx hmem with hmem | ⟨ht, rfl⟩
    · exact own_mono (hi.window p hmem) _
    · obtain rfl := worker_of_own hp ht fun _ h => h
      exact own_new
  joins := by
    intro i hmem
    rcases joinPool_before hx hmem with hmem | rfl
    · exact own_mono (hi.joins i hmem) _
    · cases t with
      | lobby => exact own_new
      | chan d => exact hp.2.elim
  taken := by
    intro q hq i hmem
    rcases mem_own_snoc hq with hq | ⟨rfl, hd⟩
    · exact own_mono (hi.taken q hq i hmem) _
    · cases hd
      exact own_mono (hi.joins i ((need_eq_some.mp hx).1.mem_iff.mp hmem)) _
  leaves := by
    intro i hmem
    rcases leavePool_before hx hmem with hmem | rfl
    · exact own_mono (hi.leaves i hmem) _
    · cases t with
      | lobby => exact own_new
      | chan d => exact hp.2.elim
  left := by
    intro q hq i hmem
    rcases mem_own_snoc hq with hq | ⟨rfl, hd⟩
    · exact own_mono (hi.left q hq i hmem) _
    · cases hd
      exact own_mono (hi.leaves i ((need_eq_some.mp hx).1.mem_iff.mp hmem)) _
  read := by
    intro cur y hy
    by_cases ht : t = .chan c
    · subst ht
      rw [Sys.own_snoc_self x ⟨.chan c, a, r, s, s'⟩] at hy
      obtain ⟨-, he⟩ := List.append_inj' hy rfl
      cases he
      obtain ⟨hcur, rfl⟩ := need_eq_some.mp hx
      exact ⟨hp.1, hcur⟩
    · rw [Sys.own_snoc_ne x ht] at hy
      obtain ⟨hrun, hcur⟩ := hi.read cur y hy
      obtain ⟨hrun', -, hsame⟩ := air_unchanged hp hx ht hrun
      exact ⟨hrun', hcur.trans hsame.symm⟩
  airing := by
    intro cur l ha
    by_cases ht : t = .chan c
    · subst ht
      rw [Sys.own_snoc_self x ⟨.chan c, a, r, s, s'⟩] at ha
      rcases airing_snoc ha with ⟨⟨n, b, hsend⟩, ha⟩ | ⟨he, y, hy⟩
      · obtain ⟨hrun, hcur, hl⟩ := hi.airing cur l ha
        have hsend : a = .send n b := hsend
        subst hsend
        have hsame : s' = s := by
          cases r with
          | none => exact (Option.some.inj hx).symm
          | some k => exact (need_eq_some.mp hx).2.symm
        rw [hsame]
        exact ⟨hrun, hcur, hl⟩
      · cases he
        obtain ⟨hrun, hcur⟩ := hi.read cur y hy
        obtain ⟨⟨-, hl⟩, rfl⟩ := need_eq_some.mp hx
        exact ⟨hrun, hcur, hl⟩
    · rw [Sys.own_snoc_ne x ht] at ha
      obtain ⟨hrun, hcur, hl⟩ := hi.airing cur l ha
      obtain ⟨hrun', hclients, hsame⟩ := air_unchanged hp hx ht hrun
      exact ⟨hrun', hcur.trans hsame.symm, hl.trans hclients.symm⟩

theorem stocked_run (h : (server P).Run (init P) tr cf) (c : ChId) :
    ∀ x e y, tr = x ++ e :: y → Stocked c x e.pre :=
  (h.along (I := Stocked c) (stocked_init c) fun x e y hs hi => by
    obtain ⟨-, hp, hx⟩ := legal h e (by simp [hs])
    exact hi.step hp hx).2

/-! ## Nothing but what was said in the channel -/

/-- How an item has come into a channel's `mq`. -/
inductive Sourced (js : Jansson) (c : ChId) (x : List Ev) : Item → Prop
  /-- The worker decoded a frame of the client's that says `text`, and then read the client's name. -/
  | said {n : Fd} {f target text u : Bytes} {root : js.Json} {ts : Msec64} {y z : Hist sig} :
      Sys.own (.chan c) x = y ++ ⟨.onFrame n f, ()⟩ :: ⟨.getUserName n, some u⟩ :: z → Unpacked n f y →
      requestOf js f = some (target, root) → isMessage target = true →
      unpackMessage js root = some (text, ts) → Sourced js c x (n, ⟨.user, text, ts, u, 0⟩)
  /-- The lobby entered the client into the channel. -/
  | joins {n : Fd} {text u : Bytes} {ts : Msec64} : text = ascii "join" ∨ text = ascii "rejoin" →
      (⟨.emplaceJoin c n (sysMsg c text ts u), ()⟩ : Call sig) ∈ Sys.own .lobby x →
      Sourced js c x (n, sysMsg c text ts u)
  /-- The lobby took the client out of the channel. -/
  | leaves {n : Fd} {u : Bytes} {ts : Msec64} :
      (⟨.emplaceLeave c n (sysMsg c (ascii "leave") ts u), ()⟩ : Call sig) ∈ Sys.own .lobby x →
      Sourced js c x (n, sysMsg c (ascii "leave") ts u)
  /-- The worker deleted the client. -/
  | deleted {n : Fd} {u : Bytes} {ts : Msec64} {l : List Fd} :
      (⟨.getDeletion, l⟩ : Call sig) ∈ Sys.own (.chan c) x → n ∈ l →
      Sourced js c x (n, sysMsg c (ascii "leave") ts u)

/-- A call a thread has made was made when its contract allowed it. -/
theorem source_own (h : (server P).Run (init P) tr cf) {y : List Ev} (hs : tr = x ++ y) {v : Srv} {d : Call sig}
    (hd : d ∈ Sys.own v x) : ∃ z w, Sys.own v x = z ++ d :: w ∧ (sourceOf P.js v).before d.1 z := by
  obtain ⟨z, w, hsplit⟩ := List.append_of_mem hd
  obtain ⟨x₁, e, x₂, rfl, rfl, rfl, rfl⟩ := Sys.own_split hsplit
  refine ⟨_, w, hsplit, source_run h x₁ e (x₂ ++ y) ?_⟩
  rw [hs, List.append_assoc]
  rfl

theorem sourced_of_pushed (h : (server P).Run (init P) tr cf) {y : List Ev} (hs : tr = x ++ y) (hi : Stocked c x s)
    {i : Item} (hpush : (⟨.pushMq i.1 i.2, ()⟩ : Call sig) ∈ Sys.own (.chan c) x) : Sourced P.js c x i := by
  obtain ⟨z, w, hsplit, hb⟩ := source_own h hs hpush
  have hmem {d : Call sig} (hd : d ∈ z) : d ∈ Sys.own (.chan c) x := by
    rw [hsplit]
    exact List.mem_append_left _ hd
  have hbacked : Backed P.js c z i := hb
  cases hbacked with
  | @said n f target text u root ts y' z' hz hd hq hm hu =>
    refine .said (z := z' ++ ⟨.pushMq n ⟨.user, text, ts, u, 0⟩, ()⟩ :: w) ?_ hd hq hm hu
    rw [hsplit, hz, List.append_assoc]
    rfl
  | joins hr hir =>
    have hentry := hi.taken _ (hmem hr) i hir
    obtain ⟨_, _, -, text, ts, u, htext, hm⟩ := source_own h hs hentry
    obtain ⟨n, m⟩ := i
    obtain rfl : m = sysMsg c text ts u := hm
    exact .joins htext hentry
  | leaves hr hir =>
    have hentry := hi.left _ (hmem hr) i hir
    obtain ⟨_, _, -, ts, u, hm⟩ := source_own h hs hentry
    obtain ⟨n, m⟩ := i
    obtain rfl : m = sysMsg c (ascii "leave") ts u := hm
    exact .leaves hentry
  | deleted hl hn => exact .deleted (hmem hl) hn

/-- **A channel keeps its words to itself, and adds none.** Whenever the worker of a channel sends something to a
client, the client is a member of the channel at that moment, what is sent is the header or a rest of the window
that was made of `cur_msgs` as it is, and every message in the window was said in a frame the channel has decoded
for the client it is ascribed to, under the name that client had, or announces that somebody joined or left this
channel. -/
theorem heard_inside (h : (server P).Run (init P) tr cf) (c : ChId) : ∀ x e y, tr = x ++ e :: y → e.tid = .chan c →
    ∀ n b, e.act = .send n b → n ∈ (e.pre.base (.chan c)).clients ∧
      ∃ dumped, P.js.dumpArray (windowArray P.js (e.pre.chan c).curMsgs) = some dumped ∧ PartOf dumped b ∧
        ∀ p ∈ (e.pre.chan c).curMsgs, p.1 = p.2.2.timestamp ∧ Sourced P.js c x p.2 := by
  intro x e y hs ht n b ha
  have hi := stocked_run h c x e y hs
  have hb := source_run h x e y hs
  rw [ht, ha] at hb
  obtain ⟨cur, l, dumped, hair, hn, hd, hpart⟩ := hb
  obtain ⟨-, rfl, hl⟩ := hi.airing cur l hair
  refine ⟨?_, dumped, hd, hpart, fun p hp => ?_⟩
  · rw [← hl]
    exact List.mem_toFinset.mpr hn
  · obtain ⟨z, w, hsplit, htime, q, hq, hpq⟩ := source_own h hs (hi.window p hp)
    refine ⟨htime, sourced_of_pushed h hs hi (hi.popped q ?_ _ hpq)⟩
    rw [hsplit]
    exact List.mem_append_left _ hq

/-- Whom a call sends something to. -/
def addressee : Act → Option Fd
  | .send n _ => some n
  | _ => none

theorem heard_inside_chats : ∃ tr cf, (server sample).Run (init sample) tr cf ∧ ∃ x e y b, tr = x ++ e :: y ∧
    e.tid = .chan 1 ∧ e.act = .send 5 b ∧ (∃ p ∈ (e.pre.chan 1).curMsgs, p.2.2.type = .user ∧
      Sourced sample.js 1 x p.2) ∧ 5 ∈ (e.pre.base (.chan 1)).clients := by
  obtain ⟨tr, cf, hr, e, he, ht, ha, p, hp, htype⟩ := exists_run (P := sample)
    (p := fun tr _ => ∃ e ∈ tr, e.tid = .chan 1 ∧ addressee e.act = some 5 ∧
      ∃ p ∈ (e.pre.chan 1).curMsgs, p.2.2.type = .user) chats (by decide +kernel)
  obtain ⟨x, y, hs⟩ := List.append_of_mem he
  obtain ⟨b, hb⟩ : ∃ b, e.act = .send 5 b := by
    obtain ⟨t, a, r, s, s'⟩ := e
    cases a <;> cases ha
    exact ⟨_, rfl⟩
  obtain ⟨hmember, -, -, -, hall⟩ := heard_inside hr 1 x e y hs ht 5 b hb
  exact ⟨tr, cf, hr, x, e, y, b, hs, ht, hb, ⟨p, hp, htype, (hall p hp).2⟩, hmember⟩

end ChatChannel
