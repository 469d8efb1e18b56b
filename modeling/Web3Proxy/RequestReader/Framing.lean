import Web3Proxy.RequestReader.Spec

/-!
# Web3Proxy.RequestReader.Framing

Whether the request that is read depends on how TCP cuts the message.

`on_url` and `on_body` store each fragment over the one before: the key and the
content are those of the last fragment, the path that of the last fragment with a
separator in it.  So the request is the one that was sent exactly when the target
and the body each reach the listener in one call (`framedAsSent_iff`).  For the
body this is a matter of length; for the target `key_and_path_of_cut` compares
what is stored with what the whole target would give.
-/

namespace Web3Proxy

open Py Bytes Http

section Cut

variable {m : Message} {cs : List Bytes}

theorem flatten_onUrlCalls (hm : m.WellFormed) (hwire : cs.flatten = m.wire) :
    (onUrlCalls m cs).flatten = m.target := by
  have hne : cs ≠ [] := by
    rintro rfl
    exact wire_ne_nil m hwire.symm
  rw [onUrlCalls, fragments_deliverAll m.layout .target hne (by rw [hwire, size_layout]),
    fragments_target m hm.target_ne, List.flatten_singleton]

theorem flatten_onBodyCalls (hwire : cs.flatten = m.wire) :
    (onBodyCalls m cs).flatten = m.body.content := by
  have hne : cs ≠ [] := by
    rintro rfl
    exact wire_ne_nil m hwire.symm
  rw [onBodyCalls, fragments_deliverAll m.layout .data hne (by rw [hwire, size_layout]),
    fragments_data, Body.flatten_pieces]

/-- A message in one piece. -/
theorem calls_whole (hm : m.WellFormed) :
    onUrlCalls m [m.wire] = [m.target] ∧ onBodyCalls m [m.wire] = m.body.pieces := by
  have hall := deliver_all m.layout m.wire.length (Nat.le_of_eq (size_layout m))
  simp [onUrlCalls, onBodyCalls, deliverAll, hall, fragments_target m hm.target_ne, fragments_data]

/-- A body that comes in one call from a message in pieces does so from the whole
message. -/
theorem pieces_of_onBodyCalls {b : Bytes} (hwire : cs.flatten = m.wire)
    (hone : onBodyCalls m cs = [b]) : m.body.pieces = [b] := by
  have hne : cs ≠ [] := by
    rintro rfl
    exact wire_ne_nil m hwire.symm
  have hcontent := flatten_onBodyCalls hwire
  have hlength := length_fragments_deliverAll m.layout .data hne (by rw [hwire, size_layout])
  have hb : b ≠ [] := ne_nil_of_mem_fragments (by rw [← onBodyCalls, hone]; simp)
  have hflatten := Body.flatten_pieces m.body
  rw [← onBodyCalls, hone, fragments_data, List.length_singleton] at hlength
  rw [hone, List.flatten_singleton] at hcontent
  rcases hpieces : m.body.pieces with _ | ⟨p, _ | ⟨q, ps⟩⟩
  · simp_all
  · simp_all
  · simp_all

end Cut

/-! ## targets in pieces -/

/-- The length of a part is at most that of the whole. -/
theorem length_le_flatten {us : List Bytes} {u : Bytes} (h : u ∈ us) :
    u.length ≤ us.flatten.length := by
  induction us with
  | nil => simp at h
  | cons v us ih =>
      rw [List.flatten_cons, List.length_append]
      cases h with
      | head => omega
      | tail _ h =>
          have hu := ih h
          omega

/-- A target in several fragments does not give its own key and path. -/
theorem key_and_path_of_cut {us : List Bytes} (hascii : IsAscii us.flatten)
    (hus : ∀ u ∈ us, u ≠ []) (hcut : 2 ≤ us.length)
    (hkey : us.getLast?.bind urlApiKey = urlApiKey us.flatten) :
    us.reverse.findSome? urlRest ≠ urlRest us.flatten := by
  intro hpath
  obtain ⟨init, v, rfl⟩ : ∃ init v, us = init ++ [v] :=
    ⟨us.dropLast, us.getLast (by rintro rfl; simp at hcut),
      (List.dropLast_append_getLast _).symm⟩
  have hv : 0 < v.length := List.length_pos_iff.mpr (hus v (by simp))
  have hinit : 0 < init.flatten.length := by
    cases init with
    | nil => simp at hcut
    | cons u init =>
        have hu := List.length_pos_iff.mpr (hus u (by simp))
        rw [List.flatten_cons, List.length_append]
        omega
  have hlength : (init ++ [v]).flatten.length = init.flatten.length + v.length := by simp
  -- both keys exist, and so they are the same bytes
  have hsome := isSome_decode_of_ascii fun x hx => hascii x (mem_of_mem_urlKey hx)
  obtain ⟨key, hwhole⟩ := Option.isSome_iff_exists.mp hsome
  rw [List.getLast?_append_of_ne_nil _ (by simp), List.getLast?_singleton, Option.bind_some,
    urlApiKey, urlApiKey, if_neg (by omega : ¬ (init ++ [v]).flatten.length < 2), hwhole] at hkey
  split at hkey
  next => cases hkey
  next hlong =>
    have hsame := congrArg List.length (decode_injective hkey hwhole)
    rw [List.reverse_append, List.reverse_singleton, List.singleton_append,
      List.findSome?_cons] at hpath
    cases hrest : urlRest v with
    | some r =>
        -- the last fragment alone would have to be as long as the target
        simp only [hrest] at hpath
        have hshort := urlRest_eq_some hrest
        have hlong := urlRest_eq_some hpath.symm
        omega
    | none =>
        have hlast := congrArg List.length (urlRest_eq_none hrest)
        simp only [hrest] at hpath
        cases hwhole : urlRest (init ++ [v]).flatten with
        | none =>
            have hall := congrArg List.length (urlRest_eq_none hwhole)
            rw [List.length_drop] at hlast hall
            omega
        | some r =>
            -- the path is from an earlier fragment, which also has a key before it
            have htarget := urlRest_eq_some hwhole
            obtain ⟨u, hu, hpath⟩ := List.exists_of_findSome?_eq_some (hpath.trans hwhole)
            have hearlier := urlRest_eq_some hpath
            have hle := length_le_flatten (List.mem_reverse.mp hu)
            rw [List.length_drop] at hlast
            omega

/-! ## the request that is read -/

/-- Read in these pieces, the message gives the request that it gives when it
arrives whole, and the content of that request is the body of the message. -/
def FramedAsSent (h : HttpTools) (m : Message) (cs : List Bytes) : Prop :=
  ∃ req, (∀ next, (RequestReader.readRequest h next (cs.map .data) {}).1 =
      RequestReader.dispatch next req) ∧
    (∀ next, (RequestReader.readRequest h next [.data m.wire] {}).1 =
      RequestReader.dispatch next req) ∧
    req.content = some m.body.content ∧ req.contentLen = m.body.content.length

section Framing

variable {h : HttpTools} {m : Message} {cs : List Bytes}

theorem request_of_dispatch {r req : RPCRequest}
    (heq : RequestReader.dispatch none r = RequestReader.dispatch none req) : r = req := by
  have hr := congrArg ReadOutcome.request? heq
  rwa [RequestReader.request?_dispatch, RequestReader.request?_dispatch, Option.some.injEq] at hr

theorem framedAsSent_iff_received {ps : List (Bytes × Bytes)} (hm : m.WellFormed)
    (hf : h.FollowsAs [m] ps) (hcs : ∀ c ∈ cs, c ≠ []) (hwire : cs.flatten = m.wire) :
    FramedAsSent h m cs ↔
      RPCRequest.received (onUrlCalls m cs) ps (onBodyCalls m cs) m.method =
          .received [m.target] ps m.body.pieces m.method ∧
        (onBodyCalls m cs).getLast? = some m.body.content := by
  have hcut := RequestReader.readRequest_cut [] hm hf hcs hwire
  have hwhole := RequestReader.readRequest_cut [] hm hf (by simpa using wire_ne_nil m)
    (List.flatten_singleton : [m.wire].flatten = m.wire)
  rw [List.append_nil] at hcut hwhole
  rw [(calls_whole hm).1, (calls_whole hm).2, List.map_singleton] at hwhole
  have hcontent := RPCRequest.received_content (onUrlCalls m cs) ps (onBodyCalls m cs) m.method
  have hlength := RPCRequest.received_contentLen (onUrlCalls m cs) ps (onBodyCalls m cs) m.method
  unfold FramedAsSent
  simp only [hcut, hwhole]
  constructor
  · intro ⟨req, hpieces, hsent, hbody, _⟩
    have hreq := request_of_dispatch (hpieces none)
    have hreq' := request_of_dispatch (hsent none)
    exact ⟨hreq.trans hreq'.symm, by rw [← hcontent, hreq, hbody]⟩
  · intro ⟨hsame, hlast⟩
    exact ⟨_, fun _ => rfl, fun _ => by rw [hsame], by rw [hcontent, hlast],
      by rw [hlength, hlast]; rfl⟩

/-- The last of several parts is not the whole. -/
theorem length_eq_one_of_getLast? {bs : List Bytes} (hbs : ∀ b ∈ bs, b ≠ [])
    (h : bs.getLast? = some bs.flatten) : bs.length = 1 := by
  match bs with
  | [] => simp at h
  | [b] => rfl
  | b :: c :: bs =>
      have hb := List.length_pos_iff.mpr (hbs b List.mem_cons_self)
      have hmem := List.mem_of_getLast? (List.getLast?_cons_cons ▸ h)
      have hle := length_le_flatten hmem
      rw [List.flatten_cons, List.length_append] at hle
      omega

/-- **Framing is independent of TCP segmentation** exactly when the target reaches
`on_url` in one call and the body reaches `on_body` in one call. -/
theorem framedAsSent_iff (hm : m.WellFormed) (hf : h.Follows [m]) (hcs : ∀ c ∈ cs, c ≠ [])
    (hwire : cs.flatten = m.wire) :
    FramedAsSent h m cs ↔ (onUrlCalls m cs).length = 1 ∧ (onBodyCalls m cs).length = 1 := by
  have htarget := flatten_onUrlCalls hm hwire
  have hbody := flatten_onBodyCalls hwire
  obtain ⟨ps, hps⟩ := hf
  rw [framedAsSent_iff_received hm hps hcs hwire]
  constructor
  · intro ⟨hsame, hlast⟩
    have hurls : ¬ 2 ≤ (onUrlCalls m cs).length := by
      intro hcut
      have hkey := congrArg RPCRequest.userApiKey hsame
      have hpath := congrArg RPCRequest.urlPath hsame
      rw [RPCRequest.received_userApiKey, RPCRequest.received_userApiKey,
        List.getLast?_singleton, Option.bind_some] at hkey
      rw [RPCRequest.received_urlPath, RPCRequest.received_urlPath, List.reverse_singleton,
        List.findSome?_singleton] at hpath
      have hascii : IsAscii m.target := fun x hx => RequestReader.isAscii_of_isVchar (hm.target x hx)
      rw [← htarget] at hkey hpath hascii
      exact key_and_path_of_cut hascii (fun u hu => ne_nil_of_mem_fragments hu) hcut hkey hpath
    have hsome : onUrlCalls m cs ≠ [] := by
      intro hnone
      rw [hnone] at htarget
      exact hm.target_ne htarget.symm
    have hpos := List.length_pos_iff.mpr hsome
    have hparts : ∀ b ∈ onBodyCalls m cs, b ≠ [] := fun b hb => ne_nil_of_mem_fragments hb
    have hone := length_eq_one_of_getLast? hparts (by rw [hbody, hlast])
    exact ⟨by omega, hone⟩
  · intro ⟨hurls, hbodies⟩
    obtain ⟨u, hu⟩ := List.length_eq_one_iff.mp hurls
    obtain ⟨b, hb⟩ := List.length_eq_one_iff.mp hbodies
    have hpieces := pieces_of_onBodyCalls hwire hb
    rw [hu, List.flatten_singleton] at htarget
    rw [hb, List.flatten_singleton] at hbody
    exact ⟨by rw [hu, hb, htarget, hpieces], by rw [hb, hbody]; rfl⟩

end Framing

/-! ## a message in two pieces -/

/-- A request whose body is `1`, `2`. -/
def twoByteBody : Message where
  method := str "POST"
  target := str "/key/path"
  fields := [{ name := str "Content-Length", value := str "2" }]
  body := .sized (str "12")

theorem twoByteBody_wellFormed : twoByteBody.WellFormed where
  method_ne := by decide
  method := by decide
  target_ne := by decide
  target := by decide
  fields f hf := by
    obtain rfl := List.mem_singleton.mp hf
    exact ⟨by decide, by decide, by decide, by decide, by decide, by decide, by decide⟩
  framed := ⟨by decide, .inr ⟨str "2", by decide, by decide⟩⟩

/-- Cut in the name of its field. -/
theorem framedAsSent_twoByteBody : FramedAsSent (.scripted [twoByteBody]) twoByteBody
    [twoByteBody.wire.take 30, twoByteBody.wire.drop 30] := by
  have hiff := framedAsSent_iff twoByteBody_wellFormed (HttpTools.scripted_follows [twoByteBody])
    (by decide) (List.flatten_cons.trans (by simp) :
      [twoByteBody.wire.take 30, twoByteBody.wire.drop 30].flatten = _)
  exact hiff.mpr (by decide)

/-- The body in two pieces: only the second is kept. -/
theorem not_framedAsSent : ¬ ∀ (h : HttpTools) (m : Message) (cs : List Bytes), m.WellFormed →
    h.Follows [m] → (∀ c ∈ cs, c ≠ []) → cs.flatten = m.wire → FramedAsSent h m cs := by
  intro hall
  have hframed := hall (.scripted [twoByteBody]) twoByteBody
    [twoByteBody.wire.dropLast, str "2"] twoByteBody_wellFormed (HttpTools.scripted_follows _)
    (by decide) (by decide)
  obtain ⟨req, hcut, -, hcontent, -⟩ := hframed
  have hread := congrArg ReadOutcome.request? (hcut none)
  rw [RequestReader.request?_dispatch] at hread
  have hlast := congrArg (Option.bind · RPCRequest.content) hread
  simp only [Option.bind_some, hcontent] at hlast
  revert hlast
  decide

end Web3Proxy
