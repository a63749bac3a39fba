import ChatChannel.Proof.Alphabet
import ChatChannel.Proof.Reply

/-!
# The calls of the lobby's tasks

Apart from the entries it makes in the pools of channels and from what is behind its throttle, the lobby's calls are
routine. A property of calls that all routine ones have is a property of its tasks, if it is one of the entries.
-/

set_option autoImplicit false

namespace ChatChannel

open Conc

/-- What only `check_lobby` and `check_channels` do. -/
def Survey : Act → Prop
  | .getLastAct | .assignLastAct _ | .loadEmptySince _ | .eraseChannel _ => True
  | _ => False

/-- Neither an entry in a pool, nor a look at the throttle, nor a survey. -/
def Routine : Act → Prop
  | .emplaceJoin _ _ _ | .emplaceLeave _ _ _ | .loadThrottle | .storeThrottle _ => False
  | .getLastAct | .assignLastAct _ | .loadEmptySince _ | .eraseChannel _ => False
  | _ => True

/-- The calls of the two checks. -/
def Checking (a : Act) : Prop := Routine a ∨ Survey a

section

variable {P : Params}

theorem routine_getChannel (c : ChId) : (getChannel P c).All Routine :=
  (founding_getChannel P c).mono fun a ha => by cases a <;> first | exact trivial | exact ha.elim

theorem routine_recvFrame (n : Fd) : (recvFrame P n).All Routine :=
  (fromWire_recvFrame P n).mono fun a ha => by cases a <;> first | exact trivial | exact ha.elim

theorem routine_findOrCreateChannel (pref : ChId) : (findOrCreateChannel P pref).All Routine :=
  (searching_findOrCreateChannel P pref).mono fun a ha => by cases a <;> first | exact trivial | exact ha.elim

theorem routine_lobbyOnAccept (n : Fd) : (lobbyOnAccept n).All Routine := by
  refine .handle (.bind (.bind (.perform trivial) fun r => ?_) fun _ => .bind (.perform trivial) fun _ =>
    .bind (.perform trivial) fun _ => .perform trivial) fun e => ?_
  · cases r <;> trivial
  · dsimp only
    split
    · exact .bind (all_sendFrame (fun _ => trivial) _) fun _ => .perform trivial
    · exact .perform trivial

theorem checking_checkLobby : checkLobby.All Checking := by
  refine .bind (.perform (.inl trivial)) fun now => .bind (.perform (.inr trivial)) fun acts =>
    .bind (.forEach (fun p => ?_) acts) fun _ => .perform (.inr trivial)
  dsimp only
  split
  · trivial
  · exact .perform (.inl trivial)

theorem routine_deleteChannel (c : ChId) : (deleteChannel c).All Routine := by
  have hbase : (destroyServerBase c).All Routine :=
    (founding_destroyServerBase c).mono fun a ha => by cases a <;> first | exact trivial | exact ha.elim
  refine .bind (.perform trivial) fun _ => .bind (.perform trivial) fun b => ?_
  cases b with
  | true => exact .bind (.perform trivial) fun _ => hbase
  | false => exact hbase

theorem checking_checkChannels : checkChannels.All Checking := by
  refine .bind (.perform (.inl trivial)) fun now => .bind (.perform (.inl trivial)) fun ids => .forEach (fun c => ?_) ids
  refine .bind (.perform (.inl trivial)) fun b => ?_
  cases b with
  | false => trivial
  | true =>
    refine .bind (.perform (.inr trivial)) fun e => ?_
    split
    · exact .bind ((routine_deleteChannel c).mono fun _ => .inl) fun _ => .perform (.inr trivial)
    · trivial

theorem routine_lobbyResolveDeletion : lobbyResolveDeletion.All Routine := by
  refine .bind (.perform trivial) fun l => .bind (.forEach (fun n => ?_) l) fun _ => .perform trivial
  refine .bind (.perform trivial) fun _ => .bind (.handle (.bind (all_trackerDelete trivial) fun _ =>
    trivial) fun _ => trivial) fun b => ?_
  cases b with
  | false => trivial
  | true => exact .bind (.perform trivial) fun _ => .bind (.perform trivial) fun _ => .perform trivial

/-! ## Tasks that enter clients into pools -/

variable {H : Act → Prop} (hH : ∀ a, Routine a → H a)
  (hjoin : ∀ c n ts re, (joinAndLogging c n ts re).All H) (hleave : ∀ c n ts, (leaveAndLogging c n ts).All H)

include hH hjoin

theorem all_lobbyOnReq (n : Fd) (target : Bytes) (root : P.js.Json) : (lobbyOnReq P n target root).All H := by
  unfold lobbyOnReq
  split
  · cases unpackLobbyJoin P.js root with
    | none => trivial
    | some q =>
      exact .bind (.perform (hH _ trivial)) fun _ => .bind ((routine_findOrCreateChannel _).mono hH) fun c =>
        .bind (hjoin c n _ _) fun _ => .bind (all_trackerDelete (hH _ trivial)) fun _ =>
          .bind (.perform (hH _ trivial)) fun _ => .perform (hH _ trivial)
  · trivial

theorem all_lobbyEvents (ev : PollEv) : (handleEvents P .lobby ev).All H := by
  refine .bind (.perform (hH _ trivial)) fun b => ?_
  cases b with
  | true =>
    refine .bind (.perform (hH _ trivial)) fun o => ?_
    cases o with
    | none => trivial
    | some n => exact (routine_lobbyOnAccept n).mono hH
  | false =>
    simp only [Bool.false_eq_true, if_false]
    split
    · exact .perform (hH _ trivial)
    · split
      · refine .handle (.bind ((routine_recvFrame ev.fd).mono hH) fun fs => .bind (.forEach (fun f =>
          .bind (.perform (hH (.onFrame ev.fd f) trivial)) fun _ => ?_) fs) fun _ => .perform (hH _ trivial)) fun _ =>
            .bind (.perform (hH _ trivial)) fun _ => .perform (hH _ trivial)
        cases requestOf P.js f with
        | none => trivial
        | some q => exact all_lobbyOnReq hH hjoin ev.fd q.1 q.2
      · trivial

include hleave

theorem all_consumeReport : (consumeReport P).All H := by
  have hone (r : ChannelReport) : (consumeOne P r).All H := by
    refine .bind ((routine_getChannel _).mono hH) fun _ => .bind ((routine_getChannel _).mono hH) fun _ =>
      .bind (.perform (hH _ trivial)) fun _ => .bind (.perform (hH _ trivial)) fun b => ?_
    cases b with
    | true =>
      exact .bind (hjoin _ _ _ _) fun _ => .bind (hleave _ _ _) fun _ => .bind (.perform (hH _ trivial)) fun _ =>
        .perform (hH _ trivial)
    | false => exact .bind (all_sendFrame (fun _ => hH _ trivial) _) fun _ => .perform (hH _ trivial)
  have hloop (k : Nat) : (consumeLoop P k).All H := by
    induction k with
    | zero => exact .bind (.perform (hH _ trivial)) fun _ => trivial
    | succ k ih =>
      refine .bind (.perform (hH _ trivial)) fun o => ?_
      cases o with
      | none => trivial
      | some r => exact .bind (hone r) fun _ => ih
  exact .bind (.perform (hH .popReports trivial)) fun k => .handle (hloop k) fun _ =>
    .bind (.perform (hH .dropReports trivial)) fun _ => trivial

/-- All tasks but the one behind the throttle. -/
theorem all_lobbyTask {x : Task} (hx : x ∈ lobbyTasks.flatten) (hne : x ≠ .housekeeping) :
    (runTask P .lobby x).All H := by
  have hmem : x = .clearDeletion ∨ x = .consumeReport ∨ x = .polling ∨ x = .handleEvents ∨
      x = .housekeeping ∨ x = .resolveDeletion := by
    simpa [lobbyTasks, pushTask, tsPre, tsPoll, tsLogic, tsCount] using hx
  rcases hmem with rfl | rfl | rfl | rfl | rfl | rfl
  · exact .perform (hH _ trivial)
  · exact all_consumeReport hH hjoin hleave
  · refine .bind (.perform (hH _ trivial)) fun o => ?_
    cases o <;> trivial
  · exact .bind (.perform (hH _ trivial)) fun evs => .forEach (all_lobbyEvents hH hjoin) evs
  · exact absurd rfl hne
  · exact routine_lobbyResolveDeletion.mono hH

end

/-! ## Rounds -/

/-- What the lobby's tasks keep is kept by its rounds. -/
theorem abides_lobby {P : Params} {K : Contract sig} {I : Hist sig → Prop} (hK : ∀ l, K.expects .beginRun l → l = lobbyTasks)
    (hask : ∀ a, a = .loadRunning ∨ a = .beginRun ∨ a = .endRun →
      ∀ h, I h → K.before a h ∧ ∀ r, I (h ++ [⟨a, r⟩]))
    (htask : ∀ x ∈ lobbyTasks.flatten, Abides K I (runTask P .lobby x) (fun _ => I) fun _ => I) :
    Abides K I (proc P .lobby) (fun _ => I) fun _ _ => False := by
  have hcall {a : Act} {E : Err → Hist sig → Prop} (ha : a = .loadRunning ∨ a = .beginRun ∨ a = .endRun) :
      Abides K I (call a) (fun _ => I) E :=
    .perform (fun h hi => (hask a ha h hi).1) fun r h _ hi => (hask a ha h hi).2 r
  refine .bind (hcall (.inl rfl)) fun b => ?_
  cases b with
  | false => exact .ret fun _ h => h
  | true =>
    refine .handle (E := fun _ => I) (.bind (Q := fun l h => l = lobbyTasks ∧ I h) ?_ fun l => .pure ?_)
      fun _ => .ret fun _ h => h
    · exact .perform (fun h hi => (hask .beginRun (.inr (.inl rfl)) h hi).1) fun l h hl hi =>
        ⟨hK l hl, (hask .beginRun (.inr (.inl rfl)) h hi).2 l⟩
    · rintro rfl
      have hsessions : Abides K I (Prog.forEach (Prog.forEach (runTask P .lobby)) lobbyTasks) (fun _ => I) fun _ => I :=
        .forEach_mem fun x hx => .forEach_mem fun y hy => htask y (List.mem_flatten.mpr ⟨x, hx, hy⟩)
      exact .bind (.handle hsessions fun _ => .bind (hcall (.inr (.inr rfl))) fun _ => .raise fun _ h => h) fun _ =>
        hcall (.inr (.inr rfl))

end ChatChannel
