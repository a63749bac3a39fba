import ChatChannel.Proof.Requests

/-!
# The first request

Both clients ask to be taken into channel 1 under the user's name, which is whatever line was read. The Linux client
leaves the name to Jansson; the Windows client escapes what `json_escape` knows, and a name with another control character
makes its request unreadable (`escapable_of_obj`).
-/

set_option autoImplicit false

namespace ChatChannel.Client

open Conc Incremental

/-- The lobby takes `n` into channel 1 under the name `me`, or into another one if that is full. -/
def Enters (P : Params) (payload : Bytes) (me : Bytes) (now : Msec64) : Prop :=
  ∀ n, onFrame P .lobby n payload = (do
    call (.onFrame n payload)
    call (.setUserName n me)
    let target ← findOrCreateChannel P 1
    joinAndLogging target n now false
    trackerDelete n
    call (.eraseLastAct n)
    startPooling target)

theorem enters_of_obj {P : Params} (hu : Understands P.js) {now : Msec64} {me s : Bytes} {m : Json.Members}
    (hs : Json.Utf8 s) (ho : Json.Obj s m)
    (hm : ∀ key, Json.lookup m key = Json.lookup ((Linux.helloRequest me now).map fun p => (p.1, valueOf p.2)) key) :
    Enters P s me now := by
  intro n
  have hmembers : Json.str? m (ascii "type") = some (ascii "join") ∧ Json.int? m (ascii "channel_id") = some 1 ∧
      Json.int? m (ascii "timestamp") = some (asJsonInt now) ∧ Json.str? m (ascii "user_name") = some me := by
    unfold Json.str? Json.int?
    rw [hm, hm, hm, hm]
    exact ⟨rfl, rfl, rfl, rfl⟩
  obtain ⟨htype, hid, htime, hname⟩ := hmembers
  obtain ⟨root, hreq, hread⟩ := requestOf_obj hu hs ho htype
  have hunpack : unpackLobbyJoin P.js root = some (1, now, me) := by
    unfold unpackLobbyJoin
    rw [(hread _).2, (hread _).2, (hread _).1, hid, htime, hname]
    show some (toChId 1, toMsec64 (asJsonInt now), me) = _
    rw [toMsec64_asJsonInt]
    rfl
  have hjoin : isJoin (ascii "join") = true := by decide
  unfold onFrame
  rw [hreq]
  dsimp only
  rw [lobbyOnReq, if_pos hjoin, hunpack]

theorem Linux.hello_packable {me : Bytes} (hme : Json.Utf8 me) (hz : 0 ∉ me) (now : Msec64) :
    ∀ p ∈ Linux.helloRequest me now, Packable (.str p.1) ∧ Packable p.2 := by
  intro p hp
  simp only [Linux.helloRequest, List.mem_cons, List.not_mem_nil, or_false] at hp
  rcases hp with rfl | rfl | rfl | rfl
  · exact ⟨literal_packable (s := ascii "type") (by decide), literal_packable (s := ascii "join") (by decide)⟩
  · exact ⟨literal_packable (s := ascii "channel_id") (by decide), by decide, by decide⟩
  · exact ⟨literal_packable (s := ascii "user_name") (by decide), hme, hz⟩
  · exact ⟨literal_packable (s := ascii "timestamp") (by decide), asJsonInt_packable now⟩

namespace Windows

theorem obj_hello {me : Bytes} {now : Msec64} (hme : ∀ c ∈ me, Escapable c) (hn : now.toNat < 2 ^ 63) :
    Json.Obj (helloRequest me now) ((Linux.helloRequest me now).map fun p => (p.1, valueOf p.2)) := by
  rw [helloRequest_eq]
  apply obj_objectText (List.cons_ne_nil _ _)
  refine .cons ⟨rfl, plainKey (s := ascii "type") (by decide), ?_⟩
    (.cons ⟨rfl, plainKey (s := ascii "channel_id") (by decide), ?_⟩
      (.cons ⟨rfl, plainKey (s := ascii "user_name") (by decide), ?_⟩
        (.cons ⟨rfl, plainKey (s := ascii "timestamp") (by decide), ?_⟩ .nil)))
  · exact value_literal (s := ascii "join") (plainKey (by decide))
  · exact .int (integer_decimalText (by decide) (by decide))
  · exact .str (chars_jsonEscape hme)
  · exact value_now hn

/-- Of an escaped character that is read something is left, and it was escapable. -/
theorem chars?_escaped {c : UInt8} {y : Bytes} {x : Bytes × Bytes} (h : Json.chars? (escaped c ++ y) = some x) :
    Escapable c ∧ ∃ x', Json.chars? y = some x' := by
  have hinner {e : UInt8} (he : e ≠ 117) (h : Json.chars? (92 :: e :: y) = some x) : ∃ x', Json.chars? y = some x' := by
    cases hy : Json.chars? y with
    | none => simp [Json.chars?, he, hy] at h
    | some x' => exact ⟨x', rfl⟩
  unfold escaped at h
  split_ifs at h with h34 h92 h8 h12 h10 h13 h9
  · exact ⟨.inl (by rw [h34]; decide), hinner (by decide) h⟩
  · exact ⟨.inl (by rw [h92]; decide), hinner (by decide) h⟩
  · exact ⟨.inr (.inl h8), hinner (by decide) h⟩
  · exact ⟨.inr (.inr (.inr (.inr (.inl h12)))), hinner (by decide) h⟩
  · exact ⟨.inr (.inr (.inr (.inl h10))), hinner (by decide) h⟩
  · exact ⟨.inr (.inr (.inr (.inr (.inr h13)))), hinner (by decide) h⟩
  · exact ⟨.inr (.inr (.inl h9)), hinner (by decide) h⟩
  · rw [List.singleton_append] at h
    by_cases h32 : c < 32
    · simp [Json.chars?, h34, h92, h32] at h
    · refine ⟨.inl (UInt8.not_lt.mp h32), ?_⟩
      cases hy : Json.chars? y with
      | none => simp [Json.chars?, h34, h92, h32, hy] at h
      | some x' => exact ⟨x', rfl⟩

theorem escapable_of_chars? {s y : Bytes} {x : Bytes × Bytes} (h : Json.chars? (jsonEscape s ++ y) = some x) :
    ∀ c ∈ s, Escapable c := by
  induction s generalizing x with
  | nil =>
    intro c hc
    cases hc
  | cons c s ih =>
    have hcons : jsonEscape (c :: s) = escaped c ++ jsonEscape s := rfl
    rw [hcons, List.append_assoc] at h
    obtain ⟨hc, x', hx'⟩ := chars?_escaped h
    exact List.forall_mem_cons.mpr ⟨hc, ih hx'⟩

theorem escapable_of_obj {me : Bytes} {now : Msec64} {m : Json.Members} (ho : Json.Obj (helloRequest me now) m) :
    ∀ c ∈ me, Escapable c := by
  have hnone : Json.Blanks [] := fun c hc => by cases hc
  have hone : Json.Blanks [32] := List.forall_mem_singleton.mpr rfl
  -- the text, cut behind the quote in front of the name
  have htext : helloRequest me now =
      123 :: (ascii "\"type\":\"join\"" ++ 44 :: (ascii " \"channel_id\":1" ++ 44 :: (ascii " \"user_name\":\"" ++
        (jsonEscape me ++ (ascii "\", \"timestamp\":" ++ decimalText now.toNat ++ ascii "\x7d"))))) := by
    unfold helloRequest
    simp only [List.append_assoc]
    rfl
  have hfirst : Json.Member (ascii "\"type\":\"join\"") (ascii "type", .str (ascii "join")) :=
    Json.Member.of (Json.chars_self (plainKey (s := ascii "type") (by decide))) hnone
      (value_literal (s := ascii "join") (plainKey (by decide)))
  have hsecond : Json.Member (ascii " \"channel_id\":1") (ascii "channel_id", .int 1) :=
    Json.Member.blanks hone (Json.Member.of (Json.chars_self (plainKey (s := ascii "channel_id") (by decide))) hnone
      (.int (integer_decimalText (i := 1) (by decide) (by decide))))
  generalize ascii "\", \"timestamp\":" ++ decimalText now.toNat ++ ascii "\x7d" = z at htext
  have hread := Json.object?_of_obj ho
  rw [htext] at hread
  obtain ⟨_, _, hmembers⟩ := Json.members?_of_object? hread
  obtain ⟨_, _, hrest⟩ := Json.members?_rest hfirst hmembers
  obtain ⟨_, _, hthird⟩ := Json.members?_rest hsecond hrest
  obtain ⟨y, hname⟩ := Json.member?_of_members? hthird
  obtain ⟨w, hchars⟩ := Json.chars?_of_member? (plainKey (s := ascii "user_name") (by decide)) hname
  exact escapable_of_chars? hchars

end Windows

/-- **The first request.** With a name in UTF-8, without a 0, the Linux client asks the lobby to be taken in under that
name. What the Windows client writes is an object exactly if the name has no control character but those that
`json_escape` knows, and then it asks for the same; before the year 292 million. -/
theorem first_request_served {lib : Library} {P : Params} {me : Bytes} {now : Msec64} (hu : Understands P.js)
    (hr : Renders lib) (hme : Json.Utf8 me) :
    (0 ∉ me → ∃ payload, Linux.render lib (Linux.helloRequest me now) = some payload ∧ Enters P payload me now) ∧
    (now.toNat < 2 ^ 63 →
      ((∃ m, Json.Obj (Windows.helloRequest me now) m) ↔ ∀ c ∈ me, Windows.Escapable c) ∧
      ((∀ c ∈ me, Windows.Escapable c) → Enters P (Windows.helloRequest me now) me now)) := by
  refine ⟨fun hz => ?_, fun hn => ⟨⟨?_, fun h => ⟨_, Windows.obj_hello h hn⟩⟩, fun h => ?_⟩⟩
  · obtain ⟨text, m, htext, hutf, hobj, hm⟩ := hr _ (Linux.hello_packable hme hz now)
    exact ⟨text, htext, enters_of_obj hu hutf hobj hm⟩
  · rintro ⟨m, ho⟩
    exact Windows.escapable_of_obj ho
  · have hlit {s : Bytes} (h : s.all (fun c => decide (c < 128)) = true) := literal_utf8 h
    have hutf : Json.Utf8 (Windows.helloRequest me now) :=
      (((((hlit (by decide)).append (Windows.jsonEscape_utf8 hme)).append (hlit (by decide))).append
        (decimalText_utf8 now.toNat)).append (hlit (by decide)))
    exact enters_of_obj hu hutf (Windows.obj_hello h hn) fun _ => rfl

instance : DecidablePred Windows.Escapable := fun c =>
  inferInstanceAs (Decidable (32 ≤ c ∨ c = 8 ∨ c = 9 ∨ c = 10 ∨ c = 12 ∨ c = 13))

/-- A name with a quote, a backslash and a tab on both clients. -/
theorem first_request_served_ann :
    (∃ payload, Linux.render flatLibrary (Linux.helloRequest (ascii "a\"n\\n\t") 7) = some payload ∧
      Enters { sample with js := flatJansson } payload (ascii "a\"n\\n\t") 7) ∧
    (∃ m, Json.Obj (Windows.helloRequest (ascii "a\"n\\n\t") 7) m) ∧
    Enters { sample with js := flatJansson } (Windows.helloRequest (ascii "a\"n\\n\t") 7) (ascii "a\"n\\n\t") 7 := by
  have hu : Understands ({ sample with js := flatJansson } : Params).js := understands_flat
  obtain ⟨hlinux, hwindows⟩ := @first_request_served flatLibrary { sample with js := flatJansson } (ascii "a\"n\\n\t") 7 hu
    renders_flat (literal_utf8 (by decide))
  obtain ⟨hobj, henters⟩ := hwindows (by decide)
  have hescapable : ∀ c ∈ ascii "a\"n\\n\t", Windows.Escapable c := forall_of_all (p := Windows.Escapable) (by decide)
  exact ⟨hlinux (by decide), hobj.mpr hescapable, henters hescapable⟩

end ChatChannel.Client
