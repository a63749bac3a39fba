import ChatChannel.Conc.Thread
import ChatChannel.Proof.Locks
import ChatChannel.Proof.Runs

/-!
# The order of a thread's own calls

What the lobby has done says which locks it holds (`heldAfter`) and how far it is with each channel
(`Note`): whether it has set the stop flag to destroy the channel, whether there is a thread it
started and has not joined. It takes a lock, or makes or destroys a channel, only while it holds none,
joins a thread only after it found the flag set, and clears the flag only when it has started a thread.
A worker ends only right after it found its flag set, and takes the lock only in a tick it began with
the flag clear and in which it has not set it.

These are properties of the programs alone. The one answer that matters is the list of tasks at the
beginning of a tick.
-/

set_option autoImplicit false

namespace ChatChannel

open Conc

/-! ## What the lobby's calls tell -/

/-- How far the lobby is with a channel. -/
structure Note where
  /-- It has set the stop flag, and the channel is not out of the map yet. -/
  raised : Bool
  /-- It has started a thread and not joined it. -/
  started : Bool
  /-- It has made the channel, and not put it in the map yet. -/
  made : Bool
  /-- It has found or set the stop flag, and not cleared it since. -/
  found : Bool
  /-- It is in the middle of the destructor of the tracker. -/
  bare : Bool

def Note.blank : Note := ⟨false, false, false, false, false⟩

def noteStep (c : ChId) (w : Note) : Call sig → Note
  | ⟨.loadStop d, r⟩ => if d = c then { w with found := r } else w
  | ⟨.storeStop d b, _⟩ =>
    if d = c then { w with raised := b, found := b } else w
  | ⟨.startWorker d, true⟩ => if d = c then { w with started := true } else w
  | ⟨.joinWorker d, _⟩ => if d = c then { w with started := false } else w
  | ⟨.newTracker d _, _⟩ => if d = c then { Note.blank with made := true, bare := w.bare } else w
  | ⟨.getEfd d, _⟩ => if d = c then { w with bare := true } else w
  | ⟨.dropTracker d, _⟩ =>
    if d = c then { w with started := false, made := false, found := false, bare := false } else w
  | ⟨.insertChannel d, _⟩ => if d = c then { w with made := false } else w
  | ⟨.eraseChannel d, _⟩ => if d = c then { w with raised := false } else w
  | _ => w

theorem noteStep_getEfd (c d : ChId) (w : Note) (e : Fd) :
    noteStep c w ⟨.getEfd d, e⟩ = if d = c then { w with bare := true } else w := by
  simp only [noteStep]

def noteAfter (c : ChId) (h : Hist sig) : Note := h.foldl (noteStep c) Note.blank

theorem noteAfter_append (c : ChId) (h : Hist sig) (e : Call sig) :
    noteAfter c (h ++ [e]) = noteStep c (noteAfter c h) e := by
  simp [noteAfter, List.foldl_append]

/-- Nothing made the lobby throw while it held a lock. -/
def Clean (h : Hist sig) : Prop := ∀ x e y, h = x ++ e :: y → Fails e → heldAfter x = ∅

theorem Clean.nil : Clean [] := fun x e y h => absurd h (by simp)

theorem clean_append {h : Hist sig} {e : Call sig} :
    Clean (h ++ [e]) ↔ Clean h ∧ (Fails e → heldAfter h = ∅) := by
  constructor
  · intro hc
    refine ⟨fun x d y hs => hc x d (y ++ [e]) (by simp [hs]), hc h e [] rfl⟩
  · rintro ⟨hc, he⟩ x d y hs
    rcases Sys.split_snoc hs with ⟨-, rfl, rfl⟩ | ⟨z, -, hz⟩
    · exact he
    · exact hc x d z hz

/-! ## What the threads keep to -/

/-- The lobby's contract. -/
def lobbyContract : Contract sig where
  before a h :=
    match a with
    | .lockPool _ | .newTracker _ _ => Clean h → heldAfter h = ∅
    | .dropTracker c => (Clean h → heldAfter h = ∅) ∧
      ((noteAfter c h).raised = true ∨ (noteAfter c h).made = true) ∧
        ∀ d, d ≠ c → (noteAfter d h).bare = false
    | .getEfd _ => ∀ d, (noteAfter d h).bare = false
    | .joinWorker c => (noteAfter c h).found = true ∧
      (Clean h → c ∈ heldAfter h → (noteAfter c h).raised = false)
    | .storeStop c b => b = false → (noteAfter c h).started = true ∨ (noteAfter c h).made = true
    | .insertChannel c => (noteAfter c h).started = true ∧ (noteAfter c h).made = true
    | .emplaceJoin c _ _ => (noteAfter c h).raised = false
    | .eraseChannel c => (noteAfter c h).started = false
    | _ => True
  expects
    | .beginRun, l => l = lobbyTasks
    | _, _ => True

/-- The worker is in a tick that it began with the flag clear, and has not set it. -/
def seenStep (b : Bool) : Call sig → Bool
  | ⟨.loadStop _, r⟩ => !r
  | ⟨.storeStop _ _, _⟩ | ⟨.exitThread, _⟩ => false
  | _ => b

def seen (h : Hist sig) : Bool := h.foldl seenStep false

theorem seen_append (h : Hist sig) (e : Call sig) : seen (h ++ [e]) = seenStep (seen h) e := by
  simp [seen, List.foldl_append]

/-- The worker has just found its flag set. -/
def Leaving (h : Hist sig) : Prop := ∃ x c, h = x ++ [⟨.loadStop c, true⟩]

/-- A worker's contract. -/
def workerContract : Contract sig where
  before a h :=
    match a with
    | .lockPool _ => seen h = true
    | .exitThread => Leaving h
    | _ => True
  expects
    | .beginRun, l => l = bootTasks ∨ l = channelTasks
    | _, _ => True

def contract : Srv → Contract sig
  | .lobby => lobbyContract
  | .chan _ => workerContract

/-! ## Calls that no contract is about -/

/-- Calls that have nothing to do with the locks and the lives of the channels. -/
def Apart : Act → Prop
  | .loadStop _ | .storeStop _ _ | .startWorker _ | .joinWorker _ | .exitThread | .newTracker _ _
  | .getEfd _ | .dropTracker _ | .insertChannel _ | .eraseChannel _ | .lockPool _ | .unlockPool _
  | .emplaceJoin _ _ _ => False
  | _ => True

section

variable {P : Params} {a : Act} {α : Type} {p : Code α}

theorem apart_of_building (hp : p.All Building) : p.All Apart :=
  hp.mono fun a ha => by cases a <;> first | exact trivial | exact ha.elim

theorem apart_of_mute (hp : p.All Mute) : p.All Apart :=
  hp.mono fun a ha => by cases a <;> first | exact trivial | exact ha.elim

theorem apart_of_still {c : ChId} (hp : p.All (Still c)) : p.All Apart :=
  hp.mono fun a ha => by cases a <;> first | exact trivial | exact ha.elim

theorem apart_recvFrame (n : Fd) : (recvFrame P n).All Apart :=
  (fromWire_recvFrame P n).mono fun a ha => by cases a <;> first | exact trivial | exact ha.elim

theorem apart_trackerAdd (n : Fd) : (trackerAdd n).All Apart := by
  refine .bind (.perform trivial) fun r => ?_
  cases r <;> trivial

theorem apart_lobbyOnAccept (n : Fd) : (lobbyOnAccept n).All Apart := by
  refine .handle (.bind (apart_trackerAdd n) fun _ => .bind (.perform trivial) fun _ =>
    .bind (.perform trivial) fun _ => .perform trivial) fun e => ?_
  dsimp only
  split
  · exact .bind (all_sendFrame (fun _ => trivial) _) fun _ => .perform trivial
  · exact .perform trivial

theorem apart_lobbyResolveDeletion : lobbyResolveDeletion.All Apart := by
  refine .bind (.perform trivial) fun l => .bind (.forEach (fun n => ?_) l) fun _ => .perform trivial
  refine .bind (.perform trivial) fun _ => .bind (.handle (.bind (all_trackerDelete trivial) fun _ =>
    trivial) fun _ => trivial) fun b => ?_
  cases b
  · trivial
  · exact .bind (.perform trivial) fun _ => .bind (.perform trivial) fun _ => .perform trivial

end

/-! ## The lobby -/

/-- The lobby holds exactly these locks, unless something made it throw while it held one, and is so
far with the channels. -/
structure Stands (held : Finset ChId) (ψ : (ChId → Note) → Prop) (h : Hist sig) : Prop where
  locks : Clean h → heldAfter h = held
  notes : ψ fun c => noteAfter c h

/-- The lobby is not about to destroy a channel. -/
def calm (w : ChId → Note) : Prop := ∀ c, (w c).raised = false ∧ (w c).bare = false

/-- Between two operations. -/
abbrev Free : Hist sig → Prop := Stands ∅ calm

/-- Inside the critical section of a channel. -/
abbrev Inside (c : ChId) : Hist sig → Prop := Stands {c} calm

section

variable {P : Params} {a : Act} {α : Type} {p : Code α} {c : ChId} {held held' : Finset ChId}
  {ψ : (ChId → Note) → Prop} {E : Err → Hist sig → Prop}

theorem Stands.mono {φ : (ChId → Note) → Prop} {h : Hist sig} (hs : Stands held ψ h)
    (hψ : ∀ w, ψ w → φ w) : Stands held φ h :=
  ⟨hs.locks, hψ _ hs.notes⟩

theorem stands_append {φ : (ChId → Note) → Prop} {h : Hist sig} {e : Call sig}
    (hs : Stands held ψ h) (hl : lockStep held e = held')
    (hn : ∀ w : ChId → Note, ψ w → φ fun c => noteStep c (w c) e) : Stands held' φ (h ++ [e]) := by
  constructor
  · intro hc
    rw [heldAfter_append, hs.locks (clean_append.mp hc).1, hl]
  · have hw := hn _ hs.notes
    simpa only [noteAfter_append] using hw

/-- What threw while a lock was held leaves nothing to say about the locks. -/
theorem stands_failed {h : Hist sig} {e : Call sig} (hs : Stands {c} ψ h) (he : Fails e)
    (hn : ∀ (d : ChId) (w : Note), noteStep d w e = w) : Stands held ψ (h ++ [e]) := by
  constructor
  · intro hc
    obtain ⟨hc, hf⟩ := clean_append.mp hc
    have hl := hs.locks hc
    rw [hf he] at hl
    exact absurd hl.symm (Finset.singleton_ne_empty c)
  · have hw := hs.notes
    simpa only [noteAfter_append, hn] using hw

/-- One call of the lobby. -/
theorem stands_call {φ : Res a → (ChId → Note) → Prop}
    (hb : ∀ h, Stands held ψ h → lobbyContract.before a h)
    (hl : ∀ r, lockStep held ⟨a, r⟩ = held')
    (hn : ∀ r (w : ChId → Note), ψ w → φ r fun c => noteStep c (w c) ⟨a, r⟩) :
    Abides lobbyContract (Stands held ψ) (call a) (fun r => Stands held' (φ r)) E :=
  .perform hb fun r _ _ hs => stands_append hs (hl r) (hn r)

theorem Apart.before (ha : Apart a) (h : Hist sig) : lobbyContract.before a h := by
  cases a <;> first | exact trivial | exact ha.elim

theorem Apart.lock (ha : Apart a) (r : Res a) : lockStep held ⟨a, r⟩ = held := by
  cases a <;> first | rfl | exact ha.elim

theorem Apart.note (ha : Apart a) (r : Res a) (w : Note) : noteStep c w ⟨a, r⟩ = w := by
  cases a <;> first | rfl | exact ha.elim

/-- Programs that have nothing to do with the channels change nothing. -/
theorem stands_apart (hp : p.All Apart) : Abides lobbyContract (Stands held ψ) p
    (fun _ => Stands held ψ) fun _ => Stands held ψ :=
  .keep hp (fun _ h ha _ => ha.before h) fun a r h ha _ hs => by
    refine stands_append hs (ha.lock r) fun w hw => ?_
    simpa only [ha.note] using hw

/-- The same, where an exception ends the critical section or the operation. -/
theorem stands_apart_throw (hp : p.All Apart) (hE : ∀ e h, Stands held ψ h → E e h) :
    Abides lobbyContract (Stands held ψ) p (fun _ => Stands held ψ) E :=
  (stands_apart hp).conseq (fun _ h => h) (fun _ _ h => h) hE

theorem stands_ask (ha : Apart a) : Abides lobbyContract (Stands held ψ) (call a)
    (fun _ => Stands held ψ) E :=
  stands_call (fun h _ => ha.before h) ha.lock fun r w hw => by simpa only [ha.note] using hw

/-- Two calls belong to a destruction. -/
theorem calm_step {e : Call sig} {w : ChId → Note} (hw : calm w)
    (he : ∀ d r, e ≠ ⟨.storeStop d true, r⟩) (hg : ∀ d r, e ≠ ⟨.getEfd d, r⟩) :
    calm fun c => noteStep c (w c) e := by
  intro c
  have hc := hw c
  obtain ⟨a, r⟩ := e
  cases a
  case storeStop d b =>
    cases b with
    | true => exact absurd rfl (he d r)
    | false =>
      simp only [noteStep]
      split
      · exact ⟨rfl, hc.2⟩
      · exact hc
  case getEfd d => exact absurd rfl (hg d r)
  case startWorker d =>
    cases r with
    | false => exact hc
    | true =>
      simp only [noteStep]
      split <;> exact hc
  case loadStop | joinWorker | insertChannel =>
    simp only [noteStep]
    split <;> exact hc
  case newTracker =>
    simp only [noteStep]
    split
    · exact ⟨rfl, hc.2⟩
    · exact hc
  case dropTracker =>
    simp only [noteStep]
    split
    · exact ⟨hc.1, rfl⟩
    · exact hc
  case eraseChannel =>
    simp only [noteStep]
    split
    · exact ⟨rfl, hc.2⟩
    · exact hc
  all_goals exact hc

/-! ### Making and destroying a channel -/

/-- The lobby has just made `c`. -/
def Made (c : ChId) (w : ChId → Note) : Prop := calm w ∧ (w c).made = true

/-- It has made `c` and started its thread. -/
def Manned (c : ChId) (w : ChId → Note) : Prop := Made c w ∧ (w c).started = true

theorem conduct_serverBase (m : Int32) : Abides lobbyContract Free (serverBase c m)
    (fun _ => Stands ∅ (Made c)) E := by
  refine .bind (Q := fun _ => Stands ∅ (Made c)) ?_ fun _ => ?_
  · refine stands_call (a := .newTracker c m) (fun h hs => hs.locks) (fun _ => rfl) fun r w hw => ?_
    exact ⟨calm_step hw (by simp) (by simp), by simp [noteStep]⟩
  · exact .handle (stands_apart (apart_of_building (building_init c))) fun _ => .ret fun _ h => h

/-- The destructor of a channel that is not in the map, or about to be taken out of it. -/
theorem conduct_destroyServerBase {φ : (ChId → Note) → Prop}
    (hψ : ∀ w, ψ w → ((w c).raised = true ∨ (w c).made = true) ∧ ∀ d, (w d).bare = false)
    (hφ : ∀ (w : ChId → Note) e, ψ w →
      φ fun d => noteStep d (noteStep d (w d) ⟨.getEfd c, e⟩) ⟨.dropTracker c, ()⟩) :
    Abides lobbyContract (Stands ∅ ψ) (destroyServerBase c) (fun _ => Stands ∅ φ) E := by
  have hdrop (e : Fd) : Abides lobbyContract
      (Stands ∅ fun w => ∃ w', ψ w' ∧ w = fun d => noteStep d (w' d) ⟨.getEfd c, e⟩)
      (call (.dropTracker c)) (fun _ => Stands ∅ φ) E := by
    refine stands_call (fun h hs => ⟨hs.locks, ?_⟩) (fun _ => rfl) fun _ w hw => ?_
    · obtain ⟨w', hw', hw⟩ := hs.notes
      obtain ⟨hgone, hbare⟩ := hψ w' hw'
      rw [congrFun hw c]
      refine ⟨?_, fun d hd => ?_⟩
      · rw [noteStep_getEfd, if_pos rfl]
        exact hgone
      · rw [congrFun hw d, noteStep_getEfd, if_neg hd.symm]
        exact hbare d
    · obtain ⟨w', hw', rfl⟩ := hw
      exact hφ w' e hw'
  have hend (e : Fd) : Abides lobbyContract
      (Stands ∅ fun w => ∃ w', ψ w' ∧ w = fun d => noteStep d (w' d) ⟨.getEfd c, e⟩) (do
        if (← call .getListenFd) ≠ fdErr then call .closeListener
        call (.dropTracker c) : Code Unit) (fun _ => Stands ∅ φ) E := by
    refine .bind (stands_ask trivial) fun n => ?_
    split
    · exact .bind (stands_ask trivial) fun _ => hdrop e
    · exact hdrop e
  refine .bind (stands_call (a := .getEfd c) (φ := fun e w =>
    ∃ w', ψ w' ∧ w = fun d => noteStep d (w' d) ⟨.getEfd c, e⟩) (fun h hs => (hψ _ hs.notes).2)
    (fun _ => rfl) fun e w hw => ⟨w, hw, rfl⟩) fun e => .bind (stands_ask trivial) fun l => ?_
  split
  · refine .bind (.forEach (fun n => ?_) l) fun _ => .bind (stands_ask trivial) fun _ => hend e
    refine .bind (stands_ask trivial) fun _ => ?_
    split
    · exact stands_ask trivial
    · exact .ret fun _ h => h
  · refine .bind (.forEach (fun n => ?_) l) fun _ => hend e
    split
    · exact stands_ask trivial
    · exact .ret fun _ h => h

theorem conduct_newChannel (m : Int32) : Abides lobbyContract Free (newChannel c m)
    (fun _ => Stands ∅ (Manned c)) fun _ => Free := by
  refine .bind (conduct_serverBase m) fun _ => .handle (E := fun _ => Stands ∅ (Made c)) ?_ fun e => ?_
  · refine .bind (stands_apart (apart_of_building (building_pushb c _ _))) fun _ => ?_
    refine .bind (stands_apart (apart_of_building (building_pushf c _ _))) fun _ => ?_
    refine .bind (Q := fun _ => Stands ∅ (Made c)) ?_ fun _ => ?_
    · exact stands_call (a := .storeStop c false) (fun h hs _ => .inr hs.notes.2) (fun _ => rfl)
        fun r w hw => ⟨calm_step hw.1 (by simp) (by simp), by simpa [noteStep] using hw.2⟩
    refine .bind (Q := fun r => Stands ∅ fun w => Made c w ∧ (r = true → (w c).started = true))
      ?_ fun r => ?_
    · refine stands_call (a := .startWorker c) (fun _ _ => trivial) (fun r => by cases r <;> rfl)
        fun r w hw => ⟨⟨calm_step hw.1 (by simp) (by simp), ?_⟩, fun hr => ?_⟩
      · cases r <;> simpa [noteStep] using hw.2
      · rw [hr]
        simp [noteStep]
    cases r with
    | false => exact .raise fun h hs => hs.mono fun _ hw => hw.1
    | true =>
      exact (stands_apart_throw (ψ := Manned c) (apart_of_building (building_pushf c _ _))
        fun _ _ h => h.mono fun _ hw => hw.1).pre fun h hs => hs.mono fun _ hw => ⟨hw.1, hw.2 rfl⟩
  · refine .bind (conduct_destroyServerBase (φ := calm) (fun w hw =>
      ⟨.inr hw.2, fun d => (hw.1 d).2⟩) fun w e hw d => ?_) fun _ => .raise fun _ h => h
    by_cases hd : c = d
    · simpa [noteStep, hd] using (hw.1 d).1
    · simpa [noteStep, hd] using hw.1 d

theorem conduct_getChannel : Abides lobbyContract Free (getChannel P c) (fun _ => Free)
    fun _ => Free := by
  refine .bind (stands_ask trivial) fun b => ?_
  cases b with
  | true => exact .ret fun _ h => h
  | false =>
    refine .bind (conduct_newChannel P.chMaxFd) fun _ => ?_
    exact stands_call (a := .insertChannel c) (fun h hs => ⟨hs.notes.2, hs.notes.1.2⟩) (fun _ => rfl)
      fun r w hw => calm_step hw.1.1 (by simp) (by simp)

/-! ### Taking someone in -/

/-- `Channel::join` inside the critical section. -/
theorem conduct_join (n : Fd) (m : MessageReqDto) : Abides lobbyContract (Inside c) (join c n m)
    (fun _ => Inside c) fun _ => Inside c := by
  have hput : Abides lobbyContract (Inside c) (call (.emplaceJoin c n m)) (fun _ => Inside c)
      fun _ => Inside c :=
    stands_call (fun h hs => (hs.notes c).1) (fun _ => rfl) fun r w hw => calm_step hw (by simp) (by simp)
  have hstart : Abides lobbyContract (Inside c) (do
      unless ← call (.startWorker c) do throw Err.threadFailed
      call (.storeStop c false)
      call (.storeEmptySince c 0)
      call (.emplaceJoin c n m) : Code Unit) (fun _ => Inside c) fun _ => Inside c := by
    refine .bind (Q := fun r => Stands {c} fun w => calm w ∧ (r = true → (w c).started = true))
      ?_ fun r => ?_
    · refine stands_call (a := .startWorker c) (fun _ _ => trivial) (fun r => by cases r <;> rfl)
        fun r w hw => ⟨calm_step hw (by simp) (by simp), fun hr => ?_⟩
      rw [hr]
      simp [noteStep]
    cases r with
    | false => exact .raise fun h hs => hs.mono fun _ hw => hw.1
    | true =>
      refine .bind (Q := fun _ => Inside c) ?_ fun _ => .bind (stands_ask trivial) fun _ => hput
      exact stands_call (a := .storeStop c false) (fun h hs _ => .inl (hs.notes.2 rfl)) (fun _ => rfl)
        fun r w hw => calm_step hw.1 (by simp) (by simp)
  refine .bind (Q := fun r => Stands {c} fun w => calm w ∧ (r = true → (w c).found = true))
    ?_ fun r => ?_
  · refine stands_call (a := .loadStop c) (fun _ _ => trivial) (fun _ => rfl) fun r w hw =>
      ⟨calm_step hw (by simp) (by simp), fun hr => ?_⟩
    simp [noteStep, hr]
  cases r with
  | false => exact hput.pre fun h hs => hs.mono fun _ hw => hw.1
  | true =>
    refine .bind (stands_ask trivial) fun b => ?_
    cases b with
    | false => exact hstart.pre fun h hs => hs.mono fun _ hw => hw.1
    | true =>
      refine .bind (Q := fun _ => Inside c) ?_ fun _ => hstart
      exact stands_call (a := .joinWorker c) (fun h hs => ⟨hs.notes.2 rfl, fun _ _ => (hs.notes.1 c).1⟩)
        (fun _ => rfl) fun r w hw => calm_step hw.1 (by simp) (by simp)

theorem conduct_joinAndLogging (n : Fd) (ts : Msec64) (re : Bool) : Abides lobbyContract (Inside c)
    (joinAndLogging c n ts re) (fun _ => Inside c) E := by
  refine .handle (E := fun _ => Inside c) (.bind (stands_ask trivial) fun o => ?_) fun _ =>
    .ret fun _ h => h
  cases o with
  | none => exact .ret fun _ h => h
  | some u => exact conduct_join n _

theorem conduct_leaveAndLogging (n : Fd) (ts : Msec64) (d : ChId) : Abides lobbyContract (Inside d)
    (leaveAndLogging c n ts) (fun _ => Inside d) E := by
  refine .handle (E := fun _ => Inside d) (.bind (stands_ask trivial) fun o => ?_) fun _ =>
    .ret fun _ h => h
  cases o <;> exact stands_ask trivial

theorem conduct_waitStopPooling : Abides lobbyContract Free (waitStopPooling c)
    (fun _ => Inside c) E :=
  stands_call (a := .lockPool c) (fun h hs => hs.locks) (fun _ => rfl) fun _ w hw =>
    calm_step hw (by simp) (by simp)

theorem conduct_startPooling : Abides lobbyContract (Inside c) (startPooling c) (fun _ => Free) E :=
  stands_call (a := .unlockPool c) (fun _ _ => trivial) (fun _ => by simp [lockStep]) fun _ w hw =>
    calm_step hw (by simp) (by simp)

/-- The channel that was found is locked. -/
def Chosen (o : Option ChId) : Hist sig → Prop := Stands (o.elim ∅ fun d => {d}) calm

theorem conduct_tryChannel (pref : ChId) : Abides lobbyContract Free (tryChannel P pref c) Chosen
    fun _ => Free := by
  unfold tryChannel
  split
  · exact .ret fun _ h => h
  · refine .bind conduct_getChannel fun _ => .bind conduct_waitStopPooling fun _ =>
      .bind (stands_ask (a := .pingPool c) trivial) fun b => ?_
    cases b
    · exact .bind conduct_startPooling fun _ => .ret fun _ h => h
    · exact .ret fun _ h => h

theorem conduct_findOrCreateChannel (pref : ChId) : Abides lobbyContract Free
    (findOrCreateChannel P pref) (fun d => Inside d) fun _ => Free := by
  refine .bind conduct_getChannel fun _ => .bind conduct_waitStopPooling fun _ =>
    .bind (stands_ask (a := .pingPool pref) trivial) fun b => ?_
  cases b with
  | true => exact .ret fun _ h => h
  | false =>
    refine .bind conduct_startPooling fun _ => .bind (stands_ask trivial) fun ids => ?_
    have hloop : Abides lobbyContract Free (Prog.firstSome (tryChannel P pref) ids)
        Chosen fun _ => Free :=
      .firstSome (fun _ h => h) (fun d => (conduct_tryChannel pref).conseq (fun _ h => h)
        (fun o h ho => by cases o <;> exact ho) fun _ _ h => h) ids
    refine .bind hloop fun o => ?_
    cases o with
    | some d => exact .ret fun _ h => h
    | none =>
      exact .bind (stands_apart (all_freshId (fun _ => trivial) trivial _ _)) fun newId =>
        .bind conduct_getChannel fun _ => .bind conduct_waitStopPooling fun _ => .ret fun _ h => h

/-- A `delete_client` that throws in the critical section leaves the lock behind. -/
theorem conduct_trackerDelete (n : Fd) : Abides lobbyContract (Inside c) (trackerDelete n)
    (fun _ => Inside c) fun _ => Free := by
  refine .act (V := fun r h => if r = true then Inside c h else Free h) (fun _ _ => trivial)
    (fun r h _ hs => ?_) fun r => ?_
  · cases r with
    | true => exact stands_append hs rfl fun w hw => calm_step hw (by simp) (by simp)
    | false => exact stands_failed hs rfl fun _ _ => rfl
  · cases r with
    | true => exact .ret fun _ h => h
    | false => exact .raise fun _ h => h

theorem conduct_lobbyOnReq (n : Fd) (target : Bytes) (root : P.js.Json) : Abides lobbyContract Free
    (lobbyOnReq P n target root) (fun _ => Free) fun _ => Free := by
  unfold lobbyOnReq
  split
  · cases unpackLobbyJoin P.js root with
    | none => exact .ret fun _ h => h
    | some q =>
      exact .bind (stands_ask trivial) fun _ => .bind (conduct_findOrCreateChannel q.1) fun d =>
        .bind (conduct_joinAndLogging n q.2.1 false) fun _ => .bind (conduct_trackerDelete n)
          fun _ => .bind (stands_ask trivial) fun _ => conduct_startPooling
  · exact .ret fun _ h => h

/-! ### Reports -/

theorem conduct_sendFrame (n : Fd) : Abides lobbyContract (Inside c) (sendFrame n channelFull)
    (fun _ => Inside c) fun _ => Free :=
  abides_sendFrame sendable_channelFull (fun _ _ _ => trivial)
    (fun _ _ _ hs _ => stands_append hs rfl fun _ hw => calm_step hw (by simp) (by simp))
    fun _ _ _ hs hu => stands_failed hs hu fun _ _ => rfl

theorem conduct_consumeOne (r : ChannelReport) : Abides lobbyContract Free (consumeOne P r)
    (fun _ => Free) fun _ => Free := by
  refine .bind conduct_getChannel fun _ => .bind conduct_getChannel fun _ =>
    .bind conduct_waitStopPooling fun _ => .bind (stands_ask (a := .pingPool _) trivial) fun b => ?_
  cases b with
  | true =>
    exact .bind (conduct_joinAndLogging _ _ _) fun _ =>
      .bind (conduct_leaveAndLogging _ _ _) fun _ => .bind conduct_startPooling fun _ =>
        stands_ask trivial
  | false => exact .bind (conduct_sendFrame _) fun _ => conduct_startPooling

theorem conduct_consumeLoop : ∀ k, Abides lobbyContract Free (consumeLoop P k) (fun _ => Free)
    fun _ => Free
  | 0 => .bind (stands_ask trivial) fun _ => .ret fun _ h => h
  | k + 1 => .bind (stands_ask trivial) fun o => by
      cases o with
      | none => exact .ret fun _ h => h
      | some r => exact .bind (conduct_consumeOne r) fun _ => conduct_consumeLoop k

theorem conduct_consumeReport : Abides lobbyContract Free (consumeReport P) (fun _ => Free)
    fun _ => Free :=
  .bind (stands_ask trivial) fun k => .handle (conduct_consumeLoop k) fun _ =>
    .bind (stands_ask trivial) fun _ => .raise fun _ h => h

/-! ### Housekeeping -/

/-- The lobby is about to destroy `c`, and no other. -/
def Razing (c : ChId) (w : ChId → Note) : Prop :=
  (w c).raised = true ∧ (∀ d, d ≠ c → (w d).raised = false) ∧ ∀ d, (w d).bare = false

theorem conduct_deleteChannel : Abides lobbyContract Free (deleteChannel c)
    (fun _ => Stands ∅ fun w => Razing c w ∧ (w c).started = false) E := by
  have hdestroy : Abides lobbyContract (Stands ∅ (Razing c)) (destroyServerBase c)
      (fun _ => Stands ∅ fun w => Razing c w ∧ (w c).started = false) E := by
    refine conduct_destroyServerBase (fun w hw => ⟨.inl hw.1, hw.2.2⟩) fun w e hw =>
      ⟨⟨by simpa [noteStep] using hw.1, fun d hd => ?_, fun d => ?_⟩, by simp [noteStep]⟩
    · simpa [noteStep, hd.symm] using hw.2.1 d hd
    · by_cases hd : c = d
      · simp [noteStep, hd]
      · simpa [noteStep, hd] using hw.2.2 d
  refine .bind (Q := fun _ => Stands ∅ fun w => Razing c w ∧ (w c).found = true) ?_ fun _ => ?_
  · refine stands_call (a := .storeStop c true) (fun _ _ => by simp [lobbyContract]) (fun _ => rfl)
      fun r w hw => ⟨⟨by simp [noteStep], fun d hd => ?_, fun d => ?_⟩, by simp [noteStep]⟩
    · simpa [noteStep, hd.symm] using (hw d).1
    · simp only [noteStep]
      split <;> exact (hw d).2
  refine .bind (stands_ask trivial) fun b => ?_
  cases b with
  | false => exact hdestroy.pre fun h hs => hs.mono fun _ hw => hw.1
  | true =>
    refine .bind (Q := fun _ => Stands ∅ (Razing c)) ?_ fun _ => hdestroy
    refine stands_call (a := .joinWorker c) (fun h hs => ⟨hs.notes.2, fun hc hm => ?_⟩) (fun _ => rfl)
      fun r w hw => ⟨by simpa [noteStep] using hw.1.1, fun d hd => ?_, fun d => ?_⟩
    · rw [hs.locks hc] at hm
      exact absurd hm (Finset.notMem_empty c)
    · simpa [noteStep, hd.symm] using hw.1.2.1 d hd
    · simp only [noteStep]
      split <;> exact hw.1.2.2 d

theorem conduct_checkChannels : Abides lobbyContract Free checkChannels (fun _ => Free) E := by
  refine .bind (stands_ask trivial) fun now => .bind (stands_ask trivial) fun ids =>
    .forEach (fun c => ?_) ids
  refine .bind (Q := fun _ => Free) ?_ fun b => ?_
  · exact stands_call (a := .loadStop c) (fun _ _ => trivial) (fun _ => rfl) fun r w hw =>
      calm_step hw (by simp) (by simp)
  cases b with
  | false => exact .ret fun _ h => h
  | true =>
    refine .bind (stands_ask trivial) fun since => ?_
    split
    · refine .bind conduct_deleteChannel fun _ => ?_
      refine stands_call (a := .eraseChannel c) (fun h hs => hs.notes.2) (fun _ => rfl)
        fun r w hw d => ?_
      by_cases hd : d = c
      · simpa [noteStep, hd] using hw.1.2.2 c
      · simpa [noteStep, Ne.symm hd] using ⟨hw.1.2.1 d hd, hw.1.2.2 d⟩
    · exact .ret fun _ h => h

/-! ### The loop -/

theorem conduct_onRecv (n : Fd) : Abides lobbyContract Free (onRecv P .lobby n) (fun _ => Free)
    E := by
  refine .handle (E := fun _ => Free) ?_ fun e => .bind (stands_ask trivial) fun _ => stands_ask trivial
  refine .bind (stands_apart (apart_recvFrame n)) fun fs => .bind (.forEach (fun f => ?_) fs) fun _ =>
    stands_ask trivial
  refine .bind (stands_ask (a := .onFrame n f) trivial) fun _ => ?_
  cases requestOf P.js f with
  | none => exact .ret fun _ h => h
  | some q => exact conduct_lobbyOnReq n q.1 q.2

theorem conduct_handleEvents (ev : PollEv) : Abides lobbyContract Free (handleEvents P .lobby ev)
    (fun _ => Free) fun _ => Free := by
  refine .bind (stands_ask (a := .isListener ev.fd) trivial) fun b => ?_
  cases b with
  | true =>
    refine .bind (stands_ask (a := .accept) trivial) fun o => ?_
    cases o with
    | none => exact .ret fun _ h => h
    | some n => exact stands_apart (apart_lobbyOnAccept n)
  | false =>
    simp only [Bool.false_eq_true, if_false]
    split
    · exact stands_ask trivial
    · split
      · exact conduct_onRecv ev.fd
      · exact .ret fun _ h => h

theorem conduct_lobbyTask {x : Task} (hx : x ∈ lobbyTasks.flatten) :
    Abides lobbyContract Free (runTask P .lobby x) (fun _ => Free) fun _ => Free := by
  have hmem : x = .clearDeletion ∨ x = .consumeReport ∨ x = .polling ∨ x = .handleEvents ∨
      x = .housekeeping ∨ x = .resolveDeletion := by
    simpa [lobbyTasks, pushTask, tsPre, tsPoll, tsLogic, tsCount] using hx
  rcases hmem with rfl | rfl | rfl | rfl | rfl | rfl
  · exact stands_ask trivial
  · exact conduct_consumeReport
  · refine .bind (stands_ask trivial) fun o => ?_
    cases o with
    | none => exact .raise fun _ h => h
    | some evs => exact .ret fun _ h => h
  · exact .bind (stands_ask trivial) fun evs => .forEach conduct_handleEvents evs
  · refine .bind (stands_ask trivial) fun now => .bind (stands_ask trivial) fun last => ?_
    dsimp only
    split
    · exact .ret fun _ h => h
    · exact .bind (stands_ask trivial) fun _ => .bind (stands_apart (apart_of_mute mute_checkLobby))
        fun _ => conduct_checkChannels
  · exact stands_apart apart_lobbyResolveDeletion

/-- The lobby's loop assertion is that it stands between two operations. -/
theorem conduct_lobby : Abides lobbyContract Free (proc P .lobby) (fun _ => Free)
    fun _ _ => False := by
  refine .bind (stands_ask trivial) fun b => ?_
  cases b with
  | false => exact .ret fun _ h => h
  | true =>
    refine .handle (E := fun _ => Free) ?_ fun _ => .ret fun _ h => h
    refine .bind (Q := fun l h => l = lobbyTasks ∧ Free h) ?_ fun l => .pure ?_
    · exact .perform (fun _ _ => trivial) fun l h hl hs =>
        ⟨hl, stands_append hs rfl fun w hw => calm_step hw (by simp) (by simp)⟩
    rintro rfl
    refine .bind (.handle (E := fun _ => Free) ?_ fun e => .bind (stands_ask trivial) fun _ =>
      .raise fun _ h => h) fun _ => stands_ask trivial
    have hsession {l : List Task} (hl : ∀ x ∈ l, x ∈ lobbyTasks.flatten) :
        Abides lobbyContract Free (Prog.forEach (runTask P .lobby) l) (fun _ => Free)
          fun _ => Free := by
      induction l with
      | nil => exact .ret fun _ h => h
      | cons x l ih =>
        exact .bind (conduct_lobbyTask (hl x List.mem_cons_self)) fun _ =>
          ih fun y hy => hl y (List.mem_cons_of_mem _ hy)
    have hsessions {l : List (List Task)} (hl : ∀ x ∈ l, x ∈ lobbyTasks) : Abides lobbyContract Free
        (Prog.forEach (Prog.forEach (runTask P .lobby)) l) (fun _ => Free) fun _ => Free := by
      induction l with
      | nil => exact .ret fun _ h => h
      | cons x l ih =>
        exact .bind (hsession fun y hy => List.mem_flatten.mpr ⟨x, hl x List.mem_cons_self, hy⟩)
          fun _ => ih fun y hy => hl y (List.mem_cons_of_mem _ hy)
    exact hsessions fun _ h => h

end

/-! ## The workers -/

/-- Calls a worker may make after it set its flag. -/
def Loose : Act → Prop
  | .lockPool _ | .exitThread => False
  | _ => True

section

variable {P : Params} {a : Act} {α : Type} {p : Code α} {c : ChId} {E : Err → Hist sig → Prop}

/-- In a tick that began with the flag clear, with the flag not set since. -/
def Fresh (h : Hist sig) : Prop := seen h = true

theorem fresh_apart (hp : p.All Apart) : Abides workerContract Fresh p (fun _ => Fresh)
    fun _ => Fresh := by
  refine .keep hp (fun a h ha _ => ?_) fun a r h ha _ hs => ?_
  · cases a <;> first | exact trivial | exact ha.elim
  · have hstep : seenStep (seen h) ⟨a, r⟩ = seen h := by cases a <;> first | rfl | exact ha.elim
    rw [Fresh, seen_append, hstep]
    exact hs

theorem loose_keep (hp : p.All Loose) : Abides workerContract (fun _ => True) p
    (fun _ _ => True) fun _ _ => True :=
  .keep hp (fun a _ ha _ => by cases a <;> first | exact trivial | exact ha.elim)
    fun _ _ _ _ _ _ => trivial

theorem loose_of_apart (hp : p.All Apart) : p.All Loose :=
  hp.mono fun a ha => by cases a <;> first | exact trivial | exact ha.elim

/-- The lock is taken in a fresh tick. -/
theorem conduct_resolvePool : Abides workerContract Fresh (resolvePool c) (fun _ _ => True)
    fun _ _ => True := by
  refine .bind (Q := fun _ _ => True) ?_ fun _ => loose_keep ?_
  · exact .perform (fun _ hs => hs) fun _ _ _ _ => trivial
  · refine .bind (.handle ((poolCall_resolvePoolBody c).mono fun a ha => ?_) fun _ =>
      .bind (.perform trivial) fun _ => trivial) fun _ => .perform trivial
    cases a <;> first | exact trivial | exact ha.elim

theorem apart_workerTask {x : Task} (hx : x ∈ bootTasks.flatten) :
    (runTask P (.chan c) x).All Apart := by
  have hmem : x = .clearDeletion ∨ x = .clearCurMsgs ∨ x = .polling ∨ x = .handleEvents ∨
      x = .chat ∨ x = .resolveDeletion := by simpa [bootTasks] using hx
  rcases hmem with rfl | rfl | rfl | rfl | rfl | rfl
  · exact .perform trivial
  · exact .perform trivial
  · refine .bind (.perform trivial) fun o => ?_
    cases o <;> trivial
  · refine .bind (.perform trivial) fun evs => .forEach (fun ev => ?_) evs
    exact (eventCall_handleEvents P c ev).mono fun a ha => by
      cases a <;> first | exact trivial | exact ha.elim
  · exact apart_of_still (c := c) still_chatTask
  · exact (deletionCall_resolveDeletion c).mono fun a ha => by
      cases a <;> first | exact trivial | exact ha.elim

/-- The tasks of a tick: those before `resolve_pool` keep it fresh. -/
theorem conduct_tasks {l : List (List Task)} (hl : l = bootTasks ∨ l = channelTasks) :
    Abides workerContract Fresh (Prog.forEach (Prog.forEach (runTask P (.chan c))) l)
      (fun _ _ => True) fun _ _ => True := by
  have htask {x : Task} (hx : x ∈ bootTasks.flatten) : Abides workerContract Fresh
      (runTask P (.chan c) x) (fun _ => Fresh) fun _ _ => True :=
    (fresh_apart (apart_workerTask hx)).conseq (fun _ h => h) (fun _ _ h => h) fun _ _ _ => trivial
  have hend : (Prog.forEach (runTask P (.chan c)) [.chat, .resolveDeletion]).All Loose :=
    loose_of_apart (.bind (apart_workerTask (by simp [bootTasks])) fun _ =>
      .bind (apart_workerTask (by simp [bootTasks])) fun _ => trivial)
  have hfront {p : Code Unit} (hp : Abides workerContract Fresh p (fun _ _ => True)
      fun _ _ => True) : Abides workerContract Fresh
      ((Prog.forEach (runTask P (.chan c)) [.clearDeletion, .clearCurMsgs]).bind fun _ =>
        (Prog.forEach (runTask P (.chan c)) [.polling, .handleEvents]).bind fun _ => p)
      (fun _ _ => True) fun _ _ => True :=
    .bind (.bind (htask (by simp [bootTasks])) fun _ => .bind (htask (by simp [bootTasks])) fun _ =>
      .ret fun _ h => h) fun _ => .bind (.bind (htask (by simp [bootTasks])) fun _ =>
        .bind (htask (by simp [bootTasks])) fun _ => .ret fun _ h => h) fun _ => hp
  rcases hl with rfl | rfl
  · exact hfront (.bind ((loose_keep hend).pre fun _ _ => trivial) fun _ => .ret fun _ h => h)
  · exact hfront (.bind (.bind conduct_resolvePool fun _ => loose_keep hend) fun _ => .ret fun _ h => h)

theorem conduct_worker : Abides workerContract (fun _ => True) (proc P (.chan c))
    (fun _ _ => True) fun _ _ => False := by
  refine .bind (Q := fun b h => if b = true then Leaving h else Fresh h) ?_ fun b => ?_
  · refine .perform (fun _ _ => trivial) fun b h _ _ => ?_
    cases b
    · exact seen_append h _
    · exact ⟨h, c, rfl⟩
  cases b with
  | true => exact .perform (fun _ hs => hs) fun _ _ _ _ => trivial
  | false =>
    refine .handle (E := fun _ _ => True) ?_ fun _ => .ret fun _ h => h
    refine .bind (Q := fun l h => (l = bootTasks ∨ l = channelTasks) ∧ Fresh h) ?_ fun l => .pure ?_
    · exact .perform (fun _ _ => trivial) fun l h hl hs => ⟨hl, (seen_append h _).trans hs⟩
    · intro hl
      refine .bind (.handle (conduct_tasks hl) fun e => ?_) fun _ => loose_keep (.perform trivial)
      exact .bind (loose_keep (.perform trivial)) fun _ => .raise fun _ h => h

end

/-! ## On a run -/

/-- What a thread has done when it begins its body. -/
def Beginning : Srv → Hist sig → Prop
  | .lobby => Free
  | .chan _ => fun _ => True

variable {P : Params} {tr : List Ev} {c : Config sig Srv St}

theorem expects_run (h : (server P).Run (init P) tr c) :
    ∀ e ∈ tr, (contract e.tid).expects e.act e.res := by
  intro e he
  obtain ⟨t, a, r, s, s'⟩ := e
  obtain ⟨hw, hp, hx⟩ := legal h _ he
  have hrun (l : List (List Task)) (hx : exec t .beginRun l s = some s') :
      l = (s.base t).runner := (need_eq_some.mp hx).1.1
  cases t with
  | lobby =>
    cases a
    case beginRun => exact (hrun r hx).trans hw.main
    all_goals trivial
  | chan d =>
    cases a
    case beginRun =>
      have hr := hw.tasks d hp.1
      rw [← hrun r hx] at hr
      exact hr
    all_goals trivial

/-- Every thread keeps to its contract. -/
theorem conduct_run (h : (server P).Run (init P) tr c) :
    (∀ t, (c.prog t).obeys (contract t) (fun _ => Beginning t) (fun _ _ => False) (Sys.own t tr)) ∧
      ∀ x e y, tr = x ++ e :: y → (contract e.tid).before e.act (Sys.own e.tid x) := by
  have hstart : ∀ t, Beginning t []
    | .lobby => ⟨fun _ => rfl, fun _ => ⟨rfl, rfl⟩⟩
    | .chan _ => trivial
  have hbody : ∀ t, Abides (contract t) (Beginning t) ((server P).body t) (fun _ => Beginning t)
      fun _ _ => False
    | .lobby => conduct_lobby
    | .chan _ => conduct_worker
  exact h.abides hstart hbody (expects_run h)

end ChatChannel
