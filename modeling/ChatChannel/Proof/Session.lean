import ChatChannel.Model.Terminal
import ChatChannel.Proof.Rendering
import ChatChannel.Proof.RoundTrip
import ChatChannel.Wire.Json

/-!
# A session at the terminal

The loop of the Linux client serves the keyboard and the socket in turn, and both of them write to the screen. The two
halves leave each other alone: the buffer and the requests are those of the keys alone (`Rounds.typed`), the payloads
displayed and the channel are those of the stream alone (`session_halves`).
-/

set_option autoImplicit false

namespace ChatChannel.Client

open Incremental

/-! ## A JSON library -/

def valueOf : PackVal → Json.Value
  | .str s => .str s
  | .int i => .int i

def valueText : Json.Value → Bytes
  | .str s => dumpString s
  | .int i => decimalText i

/-- `json_dumps`, with `sp` behind commas and colons: nothing under `JSON_COMPACT`, or else a blank. -/
def dumpMembers (sp : Bytes) (m : Json.Members) : Bytes :=
  123 :: ((44 :: sp).intercalate (m.map fun p => dumpString p.1 ++ 58 :: (sp ++ valueText p.2)) ++ [125])

/-- Objects of strings and integers, as the Linux client uses them. -/
def flatLibrary : Library where
  Json := Json.Members
  loadb := Json.object?
  elements _ := none
  str := Json.str?
  int := Json.int?
  isObject _ := true
  pack m := some (m.map fun p => (p.1, valueOf p.2))
  dumps m := some (dumpMembers [] m)

/-- The same, as the server uses them. -/
def flatJansson : Jansson where
  Json := Json.Members
  loads := Json.object?
  str := Json.str?
  int := Json.int?
  pack m := some (m.map fun p => (p.1, valueOf p.2))
  dumpArray l := some (91 :: ([44, 32].intercalate (l.map (dumpMembers [32])) ++ [93]))

/-! ## Keys -/

/-- Keys with the times at which they are read: the buffer after them, and the lines they finish. -/
def typed (input : Bytes) : List (Msec64 × UInt8) → Bytes × List (Msec64 × Bytes)
  | [] => (input, [])
  | (now, c) :: keys =>
    let p := edit input c
    let q := typed p.1 keys
    (q.1, (p.2.map fun line => (now, line)).toList ++ q.2)

/-- A request that was made. -/
def Submission.payload? : Submission → Option Bytes
  | .sent payload => some payload
  | _ => none

theorem typed_append (input : Bytes) (ks ks' : List (Msec64 × UInt8)) :
    typed input (ks ++ ks') =
      ((typed (typed input ks).1 ks').1, (typed input ks).2 ++ (typed (typed input ks).1 ks').2) := by
  induction ks generalizing input with
  | nil => rfl
  | cons k ks ih =>
    obtain ⟨now, c⟩ := k
    rw [List.cons_append, typed, ih, typed, List.append_assoc]

namespace Linux

variable {lib : Library} {me : Bytes} {s : Session} {is : List Poll} {d : Deed}

/-- The keys of rounds. -/
def keysOf (is : List Poll) : List (Msec64 × UInt8) := is.filterMap fun i => i.key.map fun c => (i.now, c)

/-- The bytes `recv` gave out. -/
def Poll.bytes (i : Poll) : Bytes :=
  match i.recv with
  | some (.chunk b) => b
  | _ => []

theorem Receives.input {i : Poll} (h : Receives lib me s i d) : d.session.input = s.input ∧ d.sent = [] := by
  cases h with
  | quiet => exact ⟨rfl, rfl⟩
  | frames => exact ⟨rfl, rfl⟩

/-- A round's key goes through `edit`, and a line that it finishes is sent. -/
theorem press_typed {i : Poll} (h : press lib s i = some d) :
    let q := typed s.input (keysOf [i])
    d.session.input = q.1 ∧ (∀ l ∈ q.2, submitLine lib l.1 l.2 ≠ .raised) ∧
      d.sent = q.2.filterMap fun l => (submitLine lib l.1 l.2).payload? := by
  unfold press at h
  cases hkey : i.key with
  | none =>
    rw [hkey] at h
    cases h
    simp [keysOf, hkey, typed]
  | some c =>
    rw [hkey] at h
    dsimp only at h
    have hkeys : keysOf [i] = [(i.now, c)] := by simp [keysOf, hkey]
    rw [hkeys]
    cases hline : (edit s.input c).2 with
    | none =>
      rw [hline] at h
      cases h
      simp [typed, hline]
    | some line =>
      rw [hline] at h
      dsimp only [Option.map_some] at h
      cases hsub : submitLine lib i.now line with
      | sent payload =>
        rw [hsub] at h
        cases h
        simp [typed, hline, hsub, Submission.payload?]
      | ignored =>
        rw [hsub] at h
        cases h
        simp [typed, hline, hsub, Submission.payload?]
      | raised =>
        rw [hsub] at h
        cases h

theorem keysOf_snoc (is : List Poll) (i : Poll) : keysOf (is ++ [i]) = keysOf is ++ keysOf [i] :=
  List.filterMap_append

/-- **The keyboard's half.** The buffer and the requests are those of the keys, whatever the server sends. -/
theorem Rounds.typed (h : Rounds lib me s is d) :
    let q := Client.typed s.input (keysOf is)
    d.session.input = q.1 ∧ (∀ l ∈ q.2, submitLine lib l.1 l.2 ≠ .raised) ∧
      d.sent = q.2.filterMap fun l => (submitLine lib l.1 l.2).payload? := by
  induction h with
  | nil => simp [keysOf, Client.typed]
  | @snoc is i d e h hr ih =>
    obtain ⟨hinput, hraised, hsent⟩ := ih
    cases hr with
    | @mk a b hrun hrecv hpress =>
      obtain ⟨hin, hno⟩ := hrecv.input
      obtain ⟨hinput', hraised', hsent'⟩ := press_typed hpress
      rw [hin, hinput] at hinput' hraised' hsent'
      dsimp only
      rw [keysOf_snoc, typed_append]
      refine ⟨hinput', ?_, ?_⟩
      · intro l hl
        rcases List.mem_append.mp hl with hl | hl
        · exact hraised l hl
        · exact hraised' l hl
      · rw [hsent, hsent', List.filterMap_append]

/-! ## The stream -/

/-- The objects of a payload. -/
def objectsOf (lib : Library) (payload : Bytes) : List lib.Json :=
  match lib.loadb payload with
  | none => []
  | some obj =>
    match lib.elements obj with
    | some values => values.filter lib.isObject
    | none => if lib.isObject obj then [obj] else []

/-- `g_channel_id` after an object: it follows the events that bring `me` into a channel. -/
def follow (lib : Library) (me : Bytes) (channelId : Int) (obj : lib.Json) : Int :=
  if lib.str obj (ascii "type") = some (ascii "system") ∧
      arrives me (lib.str obj (ascii "user_name")) (lib.str obj (ascii "event")) = true then
    match lib.int obj (ascii "channel_id") with
    | some i => i.bmod (2 ^ 32)
    | none => channelId
  else channelId

theorem printLine_channel (width : Int) (channelId : Int) (obj : lib.Json) :
    (printLine lib width me channelId obj).2 = follow lib me channelId obj := by
  unfold printLine follow
  cases htype : lib.str obj (ascii "type") with
  | none =>
    rw [if_neg fun h => by cases h.1]
  | some type =>
    dsimp only
    by_cases h : type = ascii "system" ∧ arrives me (lib.str obj (ascii "user_name")) (lib.str obj (ascii "event")) = true
    · rw [if_pos h]
      exact (if_pos ⟨congrArg some h.1, h.2⟩).symm
    · rw [if_neg h, if_neg fun h' => h ⟨Option.some.inj h'.1, h'.2⟩]

theorem printAll_channel (widths : Nat → Int) (channelId : Int) (values : List lib.Json) :
    (printAll lib widths me channelId values).2 = (values.filter lib.isObject).foldl (follow lib me) channelId := by
  induction values generalizing widths channelId with
  | nil => rfl
  | cons value values ih =>
    unfold printAll
    dsimp only
    rw [ih]
    by_cases hobj : lib.isObject value = true
    · rw [if_pos hobj, List.filter_cons_of_pos hobj, List.foldl_cons, printLine_channel]
    · rw [if_neg hobj, List.filter_cons_of_neg hobj]

theorem displayMessage_channel (widths : Nat → Int) (input : Bytes) (channelId : Int) (payload : Bytes) :
    (displayMessage lib widths me input channelId payload).2 =
      (objectsOf lib payload).foldl (follow lib me) channelId := by
  unfold displayMessage objectsOf
  cases lib.loadb payload with
  | none => rfl
  | some obj =>
    dsimp only
    cases lib.elements obj with
    | some values => exact printAll_channel widths channelId values
    | none =>
      by_cases hobj : lib.isObject obj = true
      · simp only [hobj, if_true]
        exact printLine_channel (widths 0) channelId obj
      · simp only [hobj, if_false, Bool.false_eq_true]
        rfl

theorem displayAll_channel (widths : Nat → Nat → Int) (input : Bytes) (channelId : Int) (payloads : List Bytes) :
    (displayAll lib widths me input channelId payloads).2 =
      (payloads.flatMap (objectsOf lib)).foldl (follow lib me) channelId := by
  induction payloads generalizing widths channelId with
  | nil => rfl
  | cons payload payloads ih =>
    unfold displayAll
    dsimp only
    rw [ih, displayMessage_channel, List.flatMap_cons, List.foldl_append]

theorem Receives.channel {i : Poll} (h : Receives lib me s i d) :
    d.session.channelId = (d.shown.flatMap (objectsOf lib)).foldl (follow lib me) s.channelId := by
  cases h with
  | quiet => rfl
  | frames => exact displayAll_channel _ _ _ _

/-- The keyboard's part touches neither the stream nor the channel. -/
theorem press_frame {i : Poll} (h : press lib s i = some d) :
    d.session.acc = s.acc ∧ d.session.channelId = s.channelId ∧ d.session.running = s.running ∧ d.shown = [] := by
  unfold press at h
  cases hkey : i.key with
  | none =>
    rw [hkey] at h
    cases h
    exact ⟨rfl, rfl, rfl, rfl⟩
  | some c =>
    rw [hkey] at h
    dsimp only at h
    split at h
    · cases h
    · cases h
      exact ⟨rfl, rfl, rfl, rfl⟩
    · cases h
      exact ⟨rfl, rfl, rfl, rfl⟩

theorem Rounds.channel (h : Rounds lib me s is d) :
    d.session.channelId = (d.shown.flatMap (objectsOf lib)).foldl (follow lib me) s.channelId := by
  induction h with
  | nil => rfl
  | @snoc is i d e h hr ih =>
    cases hr with
    | @mk a b hrun hrecv hpress =>
      obtain ⟨-, hch, -, -⟩ := press_frame hpress
      dsimp only
      rw [hch, hrecv.channel, ih, List.flatMap_append, List.foldl_append]

/-- A round shows the frames that it completes. -/
theorem Receives.frames_of {i : Poll} {ps : List Bytes} {more t : Bytes} (h : Receives lib me s i d)
    (hw : look s.acc = .wait) (ht : Stalled look t) (hps : ∀ p ∈ ps, Sized p)
    (hs : s.acc ++ i.bytes ++ more = (ps.map encodeFrame).flatten ++ t) :
    look d.session.acc = .wait ∧ ∃ zs, ps = d.shown ++ zs ∧
      d.session.acc ++ more = (zs.map encodeFrame).flatten ++ t := by
  have hsame {acc : Bytes} (hacc : acc = s.acc) (hb : i.bytes = []) : look acc = .wait ∧ ∃ zs, ps = [] ++ zs ∧
      acc ++ more = (zs.map encodeFrame).flatten ++ t := by
    subst hacc
    rw [hb, List.append_nil] at hs
    exact ⟨hw, ps, rfl, hs⟩
  cases h with
  | quiet hnone => exact hsame rfl (by unfold Poll.bytes; rw [hnone])
  | @frames r shown acc ok hr hrecv =>
    cases hrecv with
    | interrupted => exact hsame rfl (by unfold Poll.bytes; rw [hr])
    | failed => exact hsame rfl (by unfold Poll.bytes; rw [hr])
    | closed => exact hsame rfl (by unfold Poll.bytes; rw [hr])
    | @read b rest shown o hd =>
      have hb : i.bytes = b := by unfold Poll.bytes; rw [hr]
      rw [hb] at hs
      obtain ⟨ys, zs, t', rfl, -, hd', hrest, -⟩ := codec_client.drains_cut ht hps hs
      obtain ⟨rfl, rfl, rfl⟩ := hd.det hd'
      exact ⟨hd.waits, zs, rfl, hrest⟩

theorem Rounds.frames_of {ps : List Bytes} {more t : Bytes} (h : Rounds lib me s is d) (hw : look s.acc = .wait)
    (ht : Stalled look t) (hps : ∀ p ∈ ps, Sized p)
    (hs : s.acc ++ is.flatMap Poll.bytes ++ more = (ps.map encodeFrame).flatten ++ t) :
    look d.session.acc = .wait ∧ ∃ zs, ps = d.shown ++ zs ∧
      d.session.acc ++ more = (zs.map encodeFrame).flatten ++ t := by
  induction h generalizing more with
  | nil => exact ⟨hw, ps, rfl, by simpa using hs⟩
  | @snoc is i d e h hr ih =>
    have hs' : s.acc ++ is.flatMap Poll.bytes ++ (i.bytes ++ more) = (ps.map encodeFrame).flatten ++ t := by
      rw [← hs, List.flatMap_append, List.flatMap_singleton]
      simp only [List.append_assoc]
    obtain ⟨hwait, zs, rfl, hrest⟩ := ih hs'
    cases hr with
    | @mk a b hrun hrecv hpress =>
      obtain ⟨hacc, -, -, hnone⟩ := press_frame hpress
      rw [← List.append_assoc] at hrest
      have hzs : ∀ p ∈ zs, Sized p := fun p hp => hps p (List.mem_append_right _ hp)
      obtain ⟨hwait', zs', rfl, hrest'⟩ := hrecv.frames_of hwait ht hzs hrest
      dsimp only
      rw [hacc]
      exact ⟨hwait', zs', (List.append_assoc _ _ _).symm, hrest'⟩

/-- **The stream's half.** However the stream is cut, and whatever is typed in between, each of its frames is
displayed once, in order. -/
theorem Rounds.frames {ps : List Bytes} {t : Bytes} (h : Rounds lib me s is d) (hw : look s.acc = .wait)
    (ht : Stalled look t) (hps : ∀ p ∈ ps, Sized p)
    (hs : s.acc ++ is.flatMap Poll.bytes = (ps.map encodeFrame).flatten ++ t) :
    d.shown = ps ∧ d.session.acc = t := by
  have hs' : s.acc ++ is.flatMap Poll.bytes ++ [] = (ps.map encodeFrame).flatten ++ t := by
    rw [List.append_nil]
    exact hs
  obtain ⟨hwait, zs, rfl, hrest⟩ := h.frames_of hw ht hps hs'
  rw [List.append_nil] at hrest
  cases zs with
  | nil => exact ⟨(List.append_nil _).symm, hrest⟩
  | cons z zs =>
    -- a frame that is left would not be waited at
    have hz : Sized z := hps z (List.mem_append_right _ List.mem_cons_self)
    rw [List.map_cons, List.flatten_cons, List.append_assoc] at hrest
    rw [hrest, codec_client.item z _ hz] at hwait
    cases hwait

/-! ## The prompt -/

/-- The screen ends with the prompt: the channel, and what has been typed. -/
def Prompted (channelId : Int) (input screen : Bytes) : Prop := refreshLine channelId input <:+ screen

theorem prompted_append (channelId : Int) (input x : Bytes) : Prompted channelId input (x ++ refreshLine channelId input) :=
  List.suffix_append _ _

theorem displayMessage_prompted {channelId : Int} {input screen : Bytes} (widths : Nat → Int) (payload : Bytes)
    (h : Prompted channelId input screen) :
    Prompted (displayMessage lib widths me input channelId payload).2 input
      (screen ++ (displayMessage lib widths me input channelId payload).1) := by
  unfold displayMessage
  cases lib.loadb payload with
  | none =>
    -- what is no JSON is not shown, and the prompt stays
    show Prompted channelId input (screen ++ [])
    rw [List.append_nil]
    exact h
  | some obj =>
    dsimp only
    rw [← List.append_assoc]
    exact prompted_append _ _ _

theorem displayAll_prompted {channelId : Int} {input screen : Bytes} (widths : Nat → Nat → Int) (payloads : List Bytes)
    (h : Prompted channelId input screen) :
    Prompted (displayAll lib widths me input channelId payloads).2 input
      (screen ++ (displayAll lib widths me input channelId payloads).1) := by
  induction payloads generalizing widths channelId screen with
  | nil =>
    show Prompted channelId input (screen ++ [])
    rw [List.append_nil]
    exact h
  | cons payload payloads ih =>
    have hfirst := @displayMessage_prompted lib me channelId input screen (widths 0) payload h
    have hrest := ih (fun k => widths (k + 1)) hfirst
    unfold displayAll
    dsimp only
    rw [← List.append_assoc]
    exact hrest

theorem Receives.prompted {i : Poll} {screen : Bytes} (h : Receives lib me s i d)
    (hp : Prompted s.channelId s.input screen) :
    Prompted d.session.channelId d.session.input (screen ++ d.out) := by
  cases h with
  | quiet =>
    show Prompted s.channelId s.input (screen ++ [])
    rw [List.append_nil]
    exact hp
  | frames => exact displayAll_prompted _ _ hp

theorem press_prompted {i : Poll} {screen : Bytes} (h : press lib s i = some d)
    (hp : Prompted s.channelId s.input screen) :
    Prompted d.session.channelId d.session.input (screen ++ d.out) := by
  unfold press at h
  cases hkey : i.key with
  | none =>
    rw [hkey] at h
    cases h
    rw [List.append_nil]
    exact hp
  | some c =>
    rw [hkey] at h
    dsimp only at h
    split at h
    · cases h
    · cases h
      exact prompted_append _ _ _
    · cases h
      exact prompted_append _ _ _

/-- After any rounds the screen ends with the prompt, if it did before. -/
theorem Rounds.prompted {screen : Bytes} (h : Rounds lib me s is d) (hp : Prompted s.channelId s.input screen) :
    Prompted d.session.channelId d.session.input (screen ++ d.out) := by
  induction h with
  | nil =>
    rw [List.append_nil]
    exact hp
  | @snoc is i d e h hr ih =>
    cases hr with
    | @mk a b hrun hrecv hpress =>
      have hscreen := press_prompted hpress (hrecv.prompted ih)
      rw [List.append_assoc, List.append_assoc] at hscreen
      exact hscreen

/-! ## The screen -/

/-- `out` is what displaying the payloads, in order, and the keys, in order, write, in whatever way they come in turn,
from a buffer and a channel to a buffer and a channel. -/
inductive Written (lib : Library) (me : Bytes) (input : Bytes) (channelId : Int) : List Bytes → List UInt8 → Bytes → Bytes →
    Int → Prop
  | nothing : Written lib me input channelId [] [] [] input channelId
  | payload {ps : List Bytes} {ks : List UInt8} {out input' : Bytes} {channelId' : Int} (widths : Nat → Int) (p : Bytes) :
      Written lib me input channelId ps ks out input' channelId' →
      Written lib me input channelId (ps ++ [p]) ks (out ++ (displayMessage lib widths me input' channelId' p).1) input'
        (displayMessage lib widths me input' channelId' p).2
  | key {ps : List Bytes} {ks : List UInt8} {out input' : Bytes} {channelId' : Int} (c : UInt8) :
      Written lib me input channelId ps ks out input' channelId' →
      Written lib me input channelId ps (ks ++ [c]) (out ++ refreshLine channelId' (edit input' c).1) (edit input' c).1
        channelId'

theorem Written.displayAll {input input' out : Bytes} {channelId channelId' : Int} {ps : List Bytes} {ks : List UInt8}
    (widths : Nat → Nat → Int) (qs : List Bytes) (h : Written lib me input channelId ps ks out input' channelId') :
    Written lib me input channelId (ps ++ qs) ks (out ++ (displayAll lib widths me input' channelId' qs).1) input'
      (displayAll lib widths me input' channelId' qs).2 := by
  induction qs generalizing widths ps out channelId' with
  | nil =>
    show Written lib me input channelId (ps ++ []) ks (out ++ []) input' channelId'
    rw [List.append_nil, List.append_nil]
    exact h
  | cons q qs ih =>
    have hrest := ih (fun k => widths (k + 1)) (h.payload (widths 0) q)
    rw [List.append_assoc, List.append_assoc] at hrest
    exact hrest

theorem Receives.written {input out : Bytes} {channelId : Int} {ps : List Bytes} {ks : List UInt8} {i : Poll}
    (h : Receives lib me s i d) (hw : Written lib me input channelId ps ks out s.input s.channelId) :
    Written lib me input channelId (ps ++ d.shown) ks (out ++ d.out) d.session.input d.session.channelId := by
  cases h with
  | quiet =>
    show Written lib me input channelId (ps ++ []) ks (out ++ []) s.input s.channelId
    rw [List.append_nil, List.append_nil]
    exact hw
  | frames => exact hw.displayAll _ _

theorem press_written {input out : Bytes} {channelId : Int} {ps : List Bytes} {ks : List UInt8} {i : Poll}
    (h : press lib s i = some d) (hw : Written lib me input channelId ps ks out s.input s.channelId) :
    Written lib me input channelId ps (ks ++ i.key.toList) (out ++ d.out) d.session.input d.session.channelId := by
  unfold press at h
  cases hkey : i.key with
  | none =>
    rw [hkey] at h
    cases h
    show Written lib me input channelId ps (ks ++ []) (out ++ []) s.input s.channelId
    rw [List.append_nil, List.append_nil]
    exact hw
  | some c =>
    rw [hkey] at h
    dsimp only at h
    split at h
    · cases h
    · cases h
      exact hw.key c
    · cases h
      exact hw.key c

/-- Everything on the screen comes from a payload or a key. -/
theorem Rounds.written (h : Rounds lib me s is d) :
    Written lib me s.input s.channelId d.shown (is.filterMap Poll.key) d.out d.session.input d.session.channelId := by
  induction h with
  | nil => exact .nothing
  | @snoc is i d e h hr ih =>
    cases hr with
    | @mk a b hrun hrecv hpress =>
      have hw := press_written hpress (hrecv.written ih)
      have hkey : (is ++ [i]).filterMap Poll.key = is.filterMap Poll.key ++ i.key.toList := by
        rw [List.filterMap_append]
        cases hk : i.key <;> simp [hk]
      rw [List.append_assoc] at hw
      rw [hkey]
      exact hw

/-- **The keyboard and the stream do not disturb each other.** In any rounds, with a stream of frames cut anywhere:
the buffer and the requests are those of the keys alone; each frame is displayed once, in order, and the channel is
the one they lead to; nothing else is written to the screen but for the keys, and it ends with the prompt for both. -/
theorem session_halves {ps : List Bytes} {q t screen : Bytes} (h : Rounds lib me s is d) (hw : look s.acc = .wait)
    (hps : ∀ p ∈ q :: ps, 1 ≤ p.length ∧ p.length ≤ 16384) (ht : t <+: encodeFrame q ∧ t ≠ encodeFrame q)
    (hs : s.acc ++ is.flatMap Poll.bytes = (ps.map encodeFrame).flatten ++ t)
    (hp : Prompted s.channelId s.input screen) :
    (d.session.input = (Client.typed s.input (keysOf is)).1 ∧
      (∀ l ∈ (Client.typed s.input (keysOf is)).2, submitLine lib l.1 l.2 ≠ .raised) ∧
      d.sent = (Client.typed s.input (keysOf is)).2.filterMap fun l => (submitLine lib l.1 l.2).payload?) ∧
    (d.shown = ps ∧ d.session.acc = t ∧
      d.session.channelId = (ps.flatMap (objectsOf lib)).foldl (follow lib me) s.channelId) ∧
    Written lib me s.input s.channelId ps (is.filterMap Poll.key) d.out d.session.input d.session.channelId ∧
    Prompted d.session.channelId d.session.input (screen ++ d.out) := by
  have hq : Sized q := hps q List.mem_cons_self
  have hall : ∀ p ∈ ps, Sized p := fun p hp => hps p (List.mem_cons_of_mem q hp)
  obtain ⟨rfl, hacc⟩ := h.frames hw (codec_client.stalled hq ht) hall hs
  exact ⟨h.typed, ⟨rfl, hacc, h.channel⟩, h.written, h.prompted hp⟩

/-- A frame comes in two pieces, with a key behind each of them; the second finishes the line. -/
theorem session_halves_typing : ∃ d, Rounds flatLibrary (ascii "ann") ⟨[], [], 1, true⟩
      [⟨some (.chunk (ascii "0002\x7b")), some 104, 7, fun _ _ => 80⟩, ⟨some (.chunk (ascii "\x7d")), some 10, 8, fun _ _ => 80⟩]
      d ∧
    d.sent = [ascii "\x7b\"type\":\"message\",\"text\":\"h\",\"timestamp\":8\x7d"] ∧ d.shown = [ascii "\x7b\x7d"] ∧
      Written flatLibrary (ascii "ann") [] 1 [ascii "\x7b\x7d"] [104, 10] d.out d.session.input d.session.channelId ∧
      Prompted d.session.channelId d.session.input (refreshLine 1 [] ++ d.out) := by
  have hstart : Rounds flatLibrary (ascii "ann") ⟨[], [], 1, true⟩ [] ⟨⟨[], [], 1, true⟩, [], [], []⟩ := .nil _
  have hfirst := hstart.snoc (.mk (i := ⟨some (.chunk (ascii "0002\x7b")), some 104, 7, fun _ _ => 80⟩) rfl
    (.frames rfl (.read (.wait rfl))) rfl)
  have hrounds := hfirst.snoc (.mk (i := ⟨some (.chunk (ascii "\x7d")), some 10, 8, fun _ _ => 80⟩) rfl
    (.frames rfl (.read (.item rfl (.wait rfl)))) rfl)
  have hps : ∀ p ∈ ascii "\x7b\x7d" :: [ascii "\x7b\x7d"], 1 ≤ p.length ∧ p.length ≤ 16384 := by decide
  have ht : [] <+: encodeFrame (ascii "\x7b\x7d") ∧ [] ≠ encodeFrame (ascii "\x7b\x7d") := by decide
  have hprompt : Prompted 1 [] (refreshLine 1 []) := List.suffix_rfl
  obtain ⟨⟨-, -, hsent⟩, ⟨hshown, -, -⟩, hwritten, hscreen⟩ := session_halves hrounds rfl hps ht (by decide) hprompt
  exact ⟨_, hrounds, hsent.trans (by decide), hshown, hwritten, hscreen⟩

end Linux

end ChatChannel.Client
