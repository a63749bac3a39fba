import ChatChannel.Model.Script

/-!
# Dispatch by hash

`on_req` compares the hash of a request's type with the hashes of six names and never the type itself.
The six hashes tell the names apart, so a name is always dispatched as it should be; another string is
ignored exactly if it does not hash to one of them, and there are some that do (`byName_iff`).
-/

set_option autoImplicit false

namespace ChatChannel

open Conc

/-! ## The names and what is done with them -/

def joinNames : List Bytes := [ascii "join", ascii "Join", ascii "JOIN"]

def messageNames : List Bytes := [ascii "message", ascii "Message", ascii "MESSAGE"]

/-- The join handling of `ChannelServer::on_req`. -/
def lobbyJoin (P : Params) (n : Fd) (root : P.js.Json) : Code Unit :=
  match unpackLobbyJoin P.js root with
  | none => pure ()
  | some (channelId, timestamp, userName) => do
    call (.setUserName n userName)
    let target ← findOrCreateChannel P channelId
    joinAndLogging target n timestamp false
    trackerDelete n
    call (.eraseLastAct n)
    startPooling target

/-- The join handling of `Channel::on_req`. -/
def channelJoin (js : Jansson) (c : ChId) (n : Fd) (root : js.Json) : Code Unit :=
  match unpackChannelJoin js root with
  | none => pure ()
  | some (chTo, timestamp) =>
    if chTo = c then pure ()
    else do
      let ptr ← call .newJoinReq
      call (.report n ptr ⟨c, chTo, timestamp⟩)

/-- The message handling, which `Channel::on_req` leaves to `ChatServer::on_req`. -/
def channelMessage (js : Jansson) (n : Fd) (root : js.Json) : Code Unit :=
  match unpackMessage js root with
  | none => pure ()
  | some (text, timestamp) => do
    match ← call (.getUserName n) with
    | none => pure ()
    | some userName =>
      call (.pushMq n { type := .user, text, timestamp, userName, channelId := 0 })

/-- Whoever sends a request of type `target` to the lobby or to a channel, with whatever else in it: it
is handled as a join if `target` is a name of a join, as a message if it is a name of a message and a
channel got it, and ignored otherwise. -/
def ByName (target : Bytes) : Prop :=
  ∀ (P : Params) (n : Fd) (root : P.js.Json),
    lobbyOnReq P n target root = (if target ∈ joinNames then lobbyJoin P n root else pure ()) ∧
    ∀ c, channelOnReq P.js c n target root =
      if target ∈ messageNames then channelMessage P.js n root
      else if target ∈ joinNames then channelJoin P.js c n root
      else pure ()

/-! ## What the hash decides -/

theorem lobbyOnReq_eq (P : Params) (n : Fd) (target : Bytes) (root : P.js.Json) :
    lobbyOnReq P n target root = if isJoin target then lobbyJoin P n root else pure () := rfl

theorem channelOnReq_eq (js : Jansson) (c : ChId) (n : Fd) (target : Bytes) (root : js.Json) :
    channelOnReq js c n target root =
      if isMessage target then channelMessage js n root
      else if isJoin target then channelJoin js c n root
      else pure () := by
  unfold channelOnReq chatOnReq
  split <;> rfl

theorem isJoin_iff {target : Bytes} : isJoin target = true ↔ hash target ∈ joinNames.map hash := by
  simp [isJoin, joinNames, or_assoc]

theorem isMessage_iff {target : Bytes} :
    isMessage target = true ↔ hash target ∈ messageNames.map hash := by
  simp [isMessage, messageNames, or_assoc]

theorem isJoin_of_mem {target : Bytes} (h : target ∈ joinNames) : isJoin target = true :=
  isJoin_iff.mpr (List.mem_map_of_mem h)

theorem isMessage_of_mem {target : Bytes} (h : target ∈ messageNames) : isMessage target = true :=
  isMessage_iff.mpr (List.mem_map_of_mem h)

/-- No name of a join hashes to a message's. -/
theorem isMessage_of_mem_joinNames {target : Bytes} (h : target ∈ joinNames) :
    isMessage target = false := by
  have hall : ∀ t ∈ joinNames, isMessage t = false := by decide
  exact hall target h

theorem not_mem_messageNames {target : Bytes} (h : target ∈ joinNames) : target ∉ messageNames := by
  intro hm
  have := isMessage_of_mem_joinNames h
  rw [isMessage_of_mem hm] at this
  cases this

/-- A request that every handling takes up. -/
def fullRequest : sample.js.Json :=
  show FlatJson.Members from [(ascii "channel_id", .int 1), (ascii "timestamp", .int 0), (ascii "user_name", .str (ascii "ann")),
    (ascii "text", .str (ascii "hi"))]

theorem lobbyJoin_ne : lobbyJoin sample 5 fullRequest ≠ pure () := by
  have hu : unpackLobbyJoin sample.js fullRequest = some (1, 0, ascii "ann") := by decide
  intro h
  unfold lobbyJoin at h
  rw [hu] at h
  cases h

theorem channelMessage_ne : channelMessage sample.js 5 fullRequest ≠ pure () := by
  have hu : unpackMessage sample.js fullRequest = some (ascii "hi", 0) := by decide
  intro h
  unfold channelMessage at h
  rw [hu] at h
  cases h

/-- A string that hashes to a name's hash and is no name is taken for the name. -/
theorem not_byName {target : Bytes} (hj : target ∉ joinNames) (hm : target ∉ messageNames)
    (h : hash target ∈ (joinNames ++ messageNames).map hash) : ¬ ByName target := by
  intro hb
  obtain ⟨hlobby, hchan⟩ := hb sample 5 fullRequest
  have hchan := hchan 1
  rw [lobbyOnReq_eq, if_neg hj] at hlobby
  rw [channelOnReq_eq, if_neg hj, if_neg hm] at hchan
  rw [List.map_append, List.mem_append, ← isJoin_iff, ← isMessage_iff] at h
  rcases h with h | h
  · rw [if_pos h] at hlobby
    exact lobbyJoin_ne hlobby
  · rw [if_pos h] at hchan
    exact channelMessage_ne hchan

/-- **Requests are dispatched by name** if and only if the type is one of the six names or does not hash
to the hash of one. -/
theorem byName_iff (target : Bytes) : ByName target ↔
    target ∈ joinNames ++ messageNames ∨ hash target ∉ (joinNames ++ messageNames).map hash := by
  constructor
  · intro hb
    by_contra hno
    rw [not_or, not_not, List.mem_append, not_or] at hno
    exact not_byName hno.1.1 hno.1.2 hno.2 hb
  · intro h P n root
    rw [lobbyOnReq_eq]
    by_cases hj : target ∈ joinNames
    · refine ⟨by rw [if_pos (isJoin_of_mem hj), if_pos hj], fun c => ?_⟩
      rw [channelOnReq_eq, if_neg (by simp [isMessage_of_mem_joinNames hj]),
        if_pos (isJoin_of_mem hj), if_neg (not_mem_messageNames hj), if_pos hj]
    · by_cases hm : target ∈ messageNames
      · have hnj : ∀ t ∈ messageNames, isJoin t = false := by decide
        refine ⟨by rw [hnj target hm, if_neg Bool.false_ne_true, if_neg hj], fun c => ?_⟩
        rw [channelOnReq_eq, if_pos (isMessage_of_mem hm), if_pos hm]
      · rw [List.mem_append, List.map_append, List.mem_append, ← isJoin_iff, ← isMessage_iff] at h
        obtain ⟨hnj, hnm⟩ : ¬ isJoin target = true ∧ ¬ isMessage target = true := by
          rcases h with (h | h) | h
          · exact absurd h hj
          · exact absurd h hm
          · exact not_or.mp h
        refine ⟨by rw [if_neg hnj, if_neg hj], fun c => ?_⟩
        rw [channelOnReq_eq, if_neg hnm, if_neg hnj, if_neg hm, if_neg hj]

/-- `zfafotb` is no name, and is handled as a join. -/
theorem dispatched_by_hash : ¬ ByName (ascii "zfafotb") :=
  not_byName (by decide) (by decide) (by decide)

end ChatChannel
