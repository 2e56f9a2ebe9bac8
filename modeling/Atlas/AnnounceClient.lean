import Atlas.BaseUrl
import Atlas.JsonCodec
import Atlas.NodeId
import Atlas.Registry

/-!
# Announces from the device to the registry

A device signs an announce or a withdrawal with its node key and sends it as a JSON
body; the registry reads the body and rebuilds the payload from what it finds there and
from its own public URL. The two sides have nothing in common but the body.

They should agree: what a device signed and sent should be authorised by every registry
whose public URL denotes the same origin and path as the URL the device has, from three
minutes before to five minutes after the time that was signed, and by no registry whose URL
denotes another. `honest_request_agrees_iff` says that they do exactly if the two URLs, when
they denote the same, are also spelled alike. A registry at `https://é.example` does not
authorise what a device signed for `https://É.example`, nor one at port `0443` what was
signed for the default port (`two_spellings_refused`). How long a body may be is the concern
of the HTTP server and not of the authorisation.
-/

namespace Atlas

open Text Json

/-! ## What the device sends -/

/-- One file to announce, with the metadata that browsing shows of it and, where the device
seeds it, its magnet. -/
structure AnnounceItem where
  blake3 : Text
  sha256 : Text
  name : Text
  size : ℕ
  /-- The size is an unsigned 64-bit integer. -/
  size_lt : size < 2 ^ 64
  quant : Text
  license : Text
  /-- The BitTorrent magnet when the file is seeded there. -/
  magnet : Text
  listable : Bool
  deriving DecidableEq

/-- The object that the client sends for an item; every field is always there, also when it
is empty. -/
def AnnounceItem.json (i : AnnounceItem) : Json :=
  obj [("blake3".toList, str i.blake3), ("sha256".toList, str i.sha256),
    ("name".toList, str i.name), ("size".toList, num (ofNat i.size)),
    ("quant".toList, str i.quant), ("license".toList, str i.license),
    ("magnet".toList, str i.magnet), ("listable".toList, bool i.listable)]

/-- Ownership proof: the time in milliseconds and a base64 signature over the canonical payload. -/
abbrev AnnounceAuth := ℤ × Text

/-- The members that carry a proof in a request's body: the timestamp as a number and the
signature as text, or nothing for an unsigned request. -/
def authFields : Option AnnounceAuth → List (Text × Json)
  | none => []
  | some (ts, sig) => [("ts".toList, num (ofInt ts)), ("sig".toList, str sig)]

/-- A member that is left out when it is empty, so that readers which do not know it are not
shown it. -/
def textField (name value : Text) : List (Text × Json) :=
  if value = [] then [] else [(name, str value)]

/-- The body of an announce: the ticket and the items always, the node id, the device name
and the proof where there are any. -/
def announceBody (nodeTicket nodeId device : Text) (items : List AnnounceItem)
    (auth : Option AnnounceAuth) : Json :=
  obj ([("node".toList, str nodeTicket), ("items".toList, arr (items.map AnnounceItem.json))] ++
    textField "node_id".toList nodeId ++ authFields auth ++ textField "device".toList device)

/-- The body of a withdrawal: the node id, the BLAKE3 of every item withdrawn, and the proof
where there is one. -/
def withdrawBody (nodeId : Text) (blake3s : List Text) (auth : Option AnnounceAuth) : Json :=
  obj ([("node_id".toList, str nodeId), ("items".toList, arr (blake3s.map str))] ++
    authFields auth)

section Signing

variable (S : SigningScheme) (keyPrint : Bytes → Text)

/-- Sign a payload with this device's node key, as it is stored. There is nothing to
sign with when there is no key yet, and nothing to sign when an id is no canonical id. -/
def signAnnounce (nodeKey : Option Bytes) (ts : ℤ) (method ticket audience : Text)
    (itemIds : List Text) : Option (Text × ℤ × Text) :=
  match nodeKey with
  | none => none
  | some secret =>
    if secret.length ≠ 32 then none
    else
      let nodeId := keyPrint (S.publicKey secret)
      (canonicalPayload method nodeId ts ticket audience itemIds).map fun payload =>
        (nodeId, ts, S.base64Encode (S.sign secret payload))

/-- What a device asks of a registry: to list files under its ticket, or to take them off
the list again. -/
inductive ClientRequest where
  | announce (nodeTicket device : Text) (items : List AnnounceItem)
  | withdraw (blake3s : List Text)

namespace ClientRequest

/-- The method whose name is signed for the request, one of the two that the registry knows. -/
def method : ClientRequest → AnnounceMethod
  | announce _ _ _ => .announce
  | withdraw _ => .withdraw

/-- The ticket that is signed. A withdrawal has none. -/
def ticket : ClientRequest → Text
  | announce nodeTicket _ _ => nodeTicket
  | withdraw _ => []

/-- The ids that are signed: the BLAKE3 of every item, in the order in which the body lists
them. -/
def ids : ClientRequest → List Text
  | announce _ _ items => items.map AnnounceItem.blake3
  | withdraw blake3s => blake3s

/-- The body of the request, with the time stamp and the signature in it if it was signed. -/
def body (nodeId : Text) (auth : Option AnnounceAuth) : ClientRequest → Json
  | announce nodeTicket device items => announceBody nodeTicket nodeId device items auth
  | withdraw blake3s => withdrawBody nodeId blake3s auth

/-- The body that is sent with a signature, or nothing where the device has no node key and
so cannot sign. -/
def signed (nodeKey : Option Bytes) (ts : ℤ) (trackerUrl : Text) (r : ClientRequest) :
    Option Json :=
  (signAnnounce S keyPrint nodeKey ts r.method.name r.ticket trackerUrl r.ids).map fun
    | (nodeId, ts, sig) => r.body nodeId (some (ts, sig))

end ClientRequest

end Signing

/-! ## What the registry reads -/

/-- A signed 64-bit integer, which is what the registry's `ts` field is read into. -/
def i64 : Codec ℤ := .signed (-2 ^ 63) (2 ^ 63)

/-- How the registry reads an item. Only the BLAKE3 is required; an absent field is its default. -/
def AnnouncedItem.codec : Codec AnnouncedItem :=
  .object <| Record.iso
    (.cons (.required "blake3".toList .text)
      (.cons (.optional "sha256".toList .text)
        (.cons (.defaulted "name".toList .text [])
          (.cons (.defaulted "size".toList (.unsigned (2 ^ 64)) 0)
            (.cons (.defaulted "quant".toList .text [])
              (.cons (.defaulted "license".toList .text [])
                (.cons (.defaulted "magnet".toList .text [])
                  (.single (.defaulted "listable".toList .boolean false))
                  (by decide)) (by decide)) (by decide)) (by decide)) (by decide)) (by decide))
      (by decide))
    { toFun := fun (blake3, sha256, name, size, quant, license, magnet, listable) =>
        ⟨blake3, sha256, name, size, quant, license, magnet, listable⟩
      invFun := fun i =>
        (i.blake3, i.sha256, i.name, i.size, i.quant, i.license, i.magnet, i.listable)
      left_inv := fun _ => rfl
      right_inv := fun _ => rfl }

/-- How the registry reads an announce. Only the ticket is required; the node id, the time
stamp and the signature may be absent, as they are in what an unsigned client sends. -/
def AnnounceReq.codec : Codec AnnounceReq :=
  .object <| Record.iso
    (.cons (.required "node".toList .text)
      (.cons (.optional "node_id".toList .text)
        (.cons (.optional "device".toList .text)
          (.cons (.optional "group".toList .text)
            (.cons (.defaulted "items".toList (.list AnnouncedItem.codec) [])
              (.cons (.optional "ts".toList i64)
                (.single (.optional "sig".toList .text))
                (by decide)) (by decide)) (by decide)) (by decide)) (by decide)) (by decide))
    { toFun := fun (node, nodeId, device, group, items, ts, sig) =>
        ⟨node, nodeId, device, group, items, ts, sig⟩
      invFun := fun r => (r.node, r.nodeId, r.device, r.group, r.items, r.ts, r.sig)
      left_inv := fun _ => rfl
      right_inv := fun _ => rfl }

/-- How the registry reads a withdrawal, which always names its node; the ids, the time and
the signature may be missing. -/
def WithdrawReq.codec : Codec WithdrawReq :=
  .object <| Record.iso
    (.cons (.required "node_id".toList .text)
      (.cons (.defaulted "items".toList (.list .text) [])
        (.cons (.optional "ts".toList i64)
          (.single (.optional "sig".toList .text))
          (by decide)) (by decide)) (by decide))
    { toFun := fun (nodeId, items, ts, sig) => ⟨nodeId, items, ts, sig⟩
      invFun := fun r => (r.nodeId, r.items, r.ts, r.sig)
      left_inv := fun _ => rfl
      right_inv := fun _ => rfl }

/-- What the registry reads of an item: every field of it, the SHA-256 as one that is present. -/
def AnnounceItem.announced (i : AnnounceItem) : AnnouncedItem where
  blake3 := i.blake3
  sha256 := some i.sha256
  name := i.name
  size := i.size
  quant := i.quant
  license := i.license
  magnet := i.magnet
  listable := i.listable

/-- An item is read as it was written. -/
theorem AnnouncedItem.decode_json (i : AnnounceItem) :
    AnnouncedItem.codec.decode i.json = some i.announced := by
  have hsize : (Codec.unsigned (2 ^ 64)).decode (num (ofNat i.size)) = some i.size :=
    Codec.natOf_ofNat i.size_lt
  refine Option.map_eq_some_iff.mpr ⟨(i.blake3, some i.sha256, i.name, i.size, i.quant,
    i.license, i.magnet, i.listable), ?_, rfl⟩
  exact Record.decode_cons.mpr ⟨rfl, Record.decode_cons.mpr ⟨rfl, Record.decode_cons.mpr ⟨rfl,
    Record.decode_cons.mpr ⟨hsize, rfl⟩⟩⟩⟩

theorem decode_list {α : Type} {β : Type} {c : Codec α} {write : β → Json} {read : β → α}
    (h : ∀ b, c.decode (write b) = some (read b)) (items : List β) :
    (Codec.list c).decode (arr (items.map write)) = some (items.map read) := by
  show (items.map write).mapM c.decode = _
  induction items with
  | nil => rfl
  | cons b items ih =>
    rw [List.map_cons, List.mapM_cons, h b, ih]
    rfl

/-- **An announce is read as it was written.** -/
theorem AnnounceReq.decode_body {nodeTicket nodeId device : Text} {items : List AnnounceItem}
    {ts : Int64} {sig : Text} (hid : nodeId ≠ []) :
    AnnounceReq.codec.decode (announceBody nodeTicket nodeId device items
        (some (ts.toInt, sig))) =
      some ⟨nodeTicket, some nodeId, if device = [] then none else some device, none,
        items.map AnnounceItem.announced, some ts.toInt, some sig⟩ := by
  have hitems := decode_list AnnouncedItem.decode_json items
  have hts : i64.decode (num (ofInt ts.toInt)) = some ts.toInt :=
    Codec.intOf_ofInt ts.le_toInt ts.toInt_lt
  unfold announceBody textField
  rw [if_neg hid]
  by_cases hdevice : device = []
  · rw [if_pos hdevice, if_pos hdevice]
    refine Option.map_eq_some_iff.mpr ⟨(nodeTicket, some nodeId, none, none,
      items.map AnnounceItem.announced, some ts.toInt, some sig), ?_, rfl⟩
    exact Record.decode_cons.mpr ⟨rfl, Record.decode_cons.mpr ⟨rfl, Record.decode_cons.mpr ⟨rfl,
      Record.decode_cons.mpr ⟨rfl, Record.decode_cons.mpr ⟨hitems,
        Record.decode_cons.mpr ⟨congrArg (Option.map some) hts, rfl⟩⟩⟩⟩⟩⟩
  · rw [if_neg hdevice, if_neg hdevice]
    refine Option.map_eq_some_iff.mpr ⟨(nodeTicket, some nodeId, some device, none,
      items.map AnnounceItem.announced, some ts.toInt, some sig), ?_, rfl⟩
    exact Record.decode_cons.mpr ⟨rfl, Record.decode_cons.mpr ⟨rfl, Record.decode_cons.mpr ⟨rfl,
      Record.decode_cons.mpr ⟨rfl, Record.decode_cons.mpr ⟨hitems,
        Record.decode_cons.mpr ⟨congrArg (Option.map some) hts, rfl⟩⟩⟩⟩⟩⟩

/-- **A withdrawal is read as it was written.** -/
theorem WithdrawReq.decode_body {nodeId : Text} {blake3s : List Text} {ts : Int64} {sig : Text} :
    WithdrawReq.codec.decode (withdrawBody nodeId blake3s (some (ts.toInt, sig))) =
      some ⟨nodeId, blake3s, some ts.toInt, some sig⟩ := by
  have hitems : (Codec.list Codec.text).decode (arr (blake3s.map str)) = some blake3s := by
    have hread := @decode_list Text Text .text str id (fun _ => rfl) blake3s
    rwa [List.map_id] at hread
  have hts : i64.decode (num (ofInt ts.toInt)) = some ts.toInt :=
    Codec.intOf_ofInt ts.le_toInt ts.toInt_lt
  refine Option.map_eq_some_iff.mpr ⟨(nodeId, blake3s, some ts.toInt, some sig), ?_, rfl⟩
  exact Record.decode_cons.mpr ⟨rfl, Record.decode_cons.mpr ⟨hitems,
    Record.decode_cons.mpr ⟨congrArg (Option.map some) hts, rfl⟩⟩⟩

/-! ## What the registry authorises -/

section Authorization

variable (S : SignatureScheme) (cfg : RegistryConfig) (now : ℤ)

/-- Whether an announce is authorised, under the node id it claims. -/
def AnnounceReq.authorized (req : AnnounceReq) : Bool :=
  req.claimed.any fun nodeId =>
    announceAuthorized S cfg.requireSigned AnnounceMethod.announce.name nodeId req.ts req.sig
      req.node cfg.publicUrl req.itemIds now

/-- Whether a withdrawal is authorised: the signature is checked over no ticket, the
registry's own public URL and the ids in the body. -/
def WithdrawReq.authorized (req : WithdrawReq) : Bool :=
  announceAuthorized S cfg.requireSigned AnnounceMethod.withdraw.name req.nodeId req.ts req.sig
    [] cfg.publicUrl req.items now

/-- Whether the body of a request is authorised where it is sent to. -/
def ClientRequest.authorized (body : Json) : ClientRequest → Bool
  | announce _ _ _ => (AnnounceReq.codec.decode body).any fun req => req.authorized S cfg now
  | withdraw _ => (WithdrawReq.codec.decode body).any fun req => req.authorized S cfg now

variable {S cfg now}

/-- An announce is accepted if it is authorised and says something. -/
theorem AnnounceReq.accepted_of_authorized {req : AnnounceReq} (hnode : req.node.trim ≠ [])
    (hitems : req.items ≠ []) (h : req.authorized S cfg now = true) :
    req.accepted S cfg now = req.claimed := by
  obtain ⟨nodeId, hid, hauthorized⟩ := (Option.any_eq_true _ _).mp h
  unfold AnnounceReq.accepted
  rw [if_neg (not_or.mpr ⟨hnode, hitems⟩), hid]
  exact Option.filter_some_pos hauthorized

/-- **What the registry verifies of a body** is what the device signed, for the audience
that the registry is. -/
theorem ClientRequest.authorized_body (r : ClientRequest) {nodeId : Text} (hid : nodeId ≠ [])
    {ts : Int64} {sig : Text} :
    r.authorized S cfg now (r.body nodeId (some (ts.toInt, sig))) =
      verify S r.method.name nodeId ts.toInt r.ticket cfg.publicUrl r.ids sig now := by
  cases r with
  | announce nodeTicket device items =>
    show (AnnounceReq.codec.decode (announceBody _ _ _ _ _)).any _ = _
    rw [AnnounceReq.decode_body hid]
    have hclaimed : (some nodeId).filter (fun s => decide (s ≠ [])) = some nodeId :=
      Option.filter_some_pos (decide_eq_true hid)
    unfold AnnounceReq.authorized AnnounceReq.claimed AnnounceReq.itemIds
    rw [Option.any_some]
    dsimp only
    rw [hclaimed, List.map_map]
    rfl
  | withdraw blake3s =>
    show (WithdrawReq.codec.decode (withdrawBody _ _ _)).any _ = _
    rw [WithdrawReq.decode_body]
    rfl

end Authorization

/-! ## Agreement -/

/-- A payload depends on the audience through its canonical form, and determines that. -/
theorem canonicalPayload_audience {method nodeId ticket a b : Text} {ts : ℤ} {ids : List Text}
    {p : Bytes} (h : canonicalPayload method nodeId ts ticket a ids = some p) :
    canonicalPayload method nodeId ts ticket b ids = some p ↔
      canonicalAudience a = canonicalAudience b := by
  unfold canonicalPayload at h ⊢
  dsimp only at h ⊢
  split at h
  · cases h
  · rename_i hids
    rw [if_neg hids, ← Option.some.inj h, Option.some_inj, utf8_injective.eq_iff]
    unfold payloadText
    constructor
    · intro heq
      have hafter := (List.cons.inj (List.append_cancel_left heq)).2
      have htime := (List.cons.inj (List.append_cancel_left hafter)).2
      have haudience := (List.cons.inj (List.append_cancel_left htime)).2
      exact (List.append_cancel_right haudience).symm
    · intro heq
      rw [heq]

/-- **A signature that is good for one message only**; it is what the refusal of another
payload rests on. -/
def SigningScheme.Binds (S : SigningScheme) (secret message : Bytes) : Prop :=
  ∀ message', S.accepts (S.publicKey secret) message'
    (S.base64Encode (S.sign secret message)) = true → message' = message

theorem tsIsFresh_of_le {ts now : ℤ} (hfuture : ts - FUTURE_SKEW_MS ≤ now)
    (hpast : now ≤ ts + FRESHNESS_WINDOW_MS) : tsIsFresh ts now = true := by
  unfold tsIsFresh saturatingSub
  unfold FUTURE_SKEW_MS FRESHNESS_WINDOW_MS at *
  exact decide_eq_true (by omega)

section Agreement

variable {S : SigningScheme} {keyPrint : Bytes → Text}

theorem ne_nil_of_prints {s : Text} {key : Bytes} (hlength : key.length = 32)
    (h : Prints s key) : s ≠ [] := by
  rintro rfl
  obtain hhex | hbase := h
  · have hlen := congrArg List.length hhex
    rw [length_hexEncode, hlength] at hlen
    cases hlen
  · have hlen := congrArg List.length hbase
    rw [length_base32Encode, hlength] at hlen
    cases hlen

/-- What a device signs and sends. -/
theorem ClientRequest.signed_eq_some {r : ClientRequest} {nodeKey : Option Bytes} {ts : ℤ}
    {trackerUrl : Text} {body : Json} (h : r.signed S keyPrint nodeKey ts trackerUrl = some body) :
    ∃ secret ∈ nodeKey, ∃ p, canonicalPayload r.method.name (keyPrint (S.publicKey secret)) ts
        r.ticket trackerUrl r.ids = some p ∧
      body = r.body (keyPrint (S.publicKey secret))
        (some (ts, S.base64Encode (S.sign secret p))) := by
  obtain ⟨⟨nodeId, t, sig⟩, hsign, hbody⟩ := Option.map_eq_some_iff.mp h
  unfold signAnnounce at hsign
  split at hsign
  · cases hsign
  · rename_i secret
    split at hsign
    · cases hsign
    · obtain ⟨p, hp, heq⟩ := Option.map_eq_some_iff.mp hsign
      cases heq
      exact ⟨secret, rfl, p, hp, hbody.symm⟩

/-- **The device and the registry agree** about a request: it is authorised as long as it is
fresh if their URLs denote the same, and never if they denote another origin or path. -/
structure Agree (S : SigningScheme) (R : UrlReading) (trackerUrl publicUrl : WrittenUrl)
    (ts : ℤ) (requireSigned : Bool) (r : ClientRequest) (body : Json) : Prop where
  accepted : trackerUrl.Same R publicUrl.toBaseUrl → ∀ now, ts - FUTURE_SKEW_MS ≤ now →
    now ≤ ts + FRESHNESS_WINDOW_MS →
      r.authorized S.toSignatureScheme ⟨publicUrl.text, requireSigned⟩ now body = true
  refused : ¬ trackerUrl.Same R publicUrl.toBaseUrl → ∀ now, r.authorized S.toSignatureScheme ⟨publicUrl.text, requireSigned⟩ now body = false

section Audience

variable {nodeKey : Option Bytes} {ts : Int64} {trackerUrl publicUrl : WrittenUrl}
  {r : ClientRequest} {body : Json} {requireSigned : Bool} {now : ℤ}

/-- While it is fresh, a request is authorised where the audience is the one that was signed. -/
theorem authorized_of_canonical_eq (hS : S.Correct)
    (hprint : ∀ key : Bytes, key.length = 32 → Prints (keyPrint key) key)
    (hsigned : r.signed S keyPrint nodeKey ts.toInt trackerUrl.text = some body)
    (haudience : trackerUrl.canonical = publicUrl.canonical)
    (hfuture : ts.toInt - FUTURE_SKEW_MS ≤ now) (hpast : now ≤ ts.toInt + FRESHNESS_WINDOW_MS) :
    r.authorized S.toSignatureScheme ⟨publicUrl.text, requireSigned⟩ now body = true := by
  obtain ⟨secret, -, p, hp, rfl⟩ := ClientRequest.signed_eq_some hsigned
  have hlength := hS.publicKey_length secret
  have hprinted := hprint _ hlength
  have hsame : canonicalAudience trackerUrl.text = canonicalAudience publicUrl.text := by
    rw [trackerUrl.canonicalAudience_text, publicUrl.canonicalAudience_text, haudience]
  rw [ClientRequest.authorized_body r (ne_nil_of_prints hlength hprinted)]
  unfold verify
  rw [tsIsFresh_of_le hfuture hpast, (canonicalPayload_audience hp).mpr hsame,
    decodeNodeId_of_prints hlength hprinted]
  exact hS.accepts secret p

/-- **Where a request is authorised, the audience is the one that was signed**, if the
signature is good for one message only. -/
theorem canonical_eq_of_authorized (hS : S.Correct)
    (hprint : ∀ key : Bytes, key.length = 32 → Prints (keyPrint key) key)
    (hsigned : r.signed S keyPrint nodeKey ts.toInt trackerUrl.text = some body)
    (hbinds : ∀ secret ∈ nodeKey, ∀ p, canonicalPayload r.method.name
        (keyPrint (S.publicKey secret)) ts.toInt r.ticket trackerUrl.text r.ids = some p →
      S.Binds secret p)
    (h : r.authorized S.toSignatureScheme ⟨publicUrl.text, requireSigned⟩ now body = true) :
    trackerUrl.canonical = publicUrl.canonical := by
  obtain ⟨secret, hsecret, p, hp, rfl⟩ := ClientRequest.signed_eq_some hsigned
  have hlength := hS.publicKey_length secret
  have hprinted := hprint _ hlength
  rw [ClientRequest.authorized_body r (ne_nil_of_prints hlength hprinted)] at h
  unfold verify at h
  split at h
  · cases h
  · split at h
    · cases h
    · rename_i p' hp'
      rw [decodeNodeId_of_prints hlength hprinted] at h
      -- the registry's payload is the one message the signature is good for
      rw [hbinds secret hsecret p hp p' h] at hp'
      have hsame := (canonicalPayload_audience hp).mp hp'
      rwa [trackerUrl.canonicalAudience_text, publicUrl.canonicalAudience_text] at hsame

/-- **The device and the registry agree exactly if URLs that denote the same are spelled
alike**: their users and hosts differ in the case of ASCII letters only, their ports are
written the same, unless both are left to the default, and so are their paths. Nothing is
authorised under another origin or path in any case. -/
theorem honest_request_agrees_iff (R : UrlReading) (hS : S.Correct)
    (hprint : ∀ key : Bytes, key.length = 32 → Prints (keyPrint key) key)
    (hsigned : r.signed S keyPrint nodeKey ts.toInt trackerUrl.text = some body)
    (hbinds : ∀ secret ∈ nodeKey, ∀ p, canonicalPayload r.method.name
        (keyPrint (S.publicKey secret)) ts.toInt r.ticket trackerUrl.text r.ids = some p →
      S.Binds secret p) (requireSigned : Bool) :
    Agree S R trackerUrl publicUrl ts.toInt requireSigned r body ↔
      (trackerUrl.Same R publicUrl.toBaseUrl →
        trackerUrl.SpelledAlike publicUrl.toBaseUrl) := by
  constructor
  · intro hagree hsame
    -- at the time that was signed, the request is fresh
    have hnow : ts.toInt - FUTURE_SKEW_MS ≤ ts.toInt ∧
        ts.toInt ≤ ts.toInt + FRESHNESS_WINDOW_MS := by
      unfold FUTURE_SKEW_MS FRESHNESS_WINDOW_MS
      omega
    have hauthorized := hagree.accepted hsame _ hnow.1 hnow.2
    have haudience := canonical_eq_of_authorized hS hprint hsigned hbinds hauthorized
    exact (BaseUrl.canonical_eq_iff.mp haudience).2
  · intro halike
    refine ⟨fun hsame now hfuture hpast => ?_, fun hother now => ?_⟩
    · have haudience := BaseUrl.canonical_eq_iff.mpr ⟨hsame.scheme_eq, halike hsame⟩
      exact authorized_of_canonical_eq hS hprint hsigned haudience hfuture hpast
    · refine Bool.eq_false_iff.mpr fun hauthorized => hother ?_
      have haudience := canonical_eq_of_authorized hS hprint hsigned hbinds hauthorized
      obtain ⟨hscheme, hspelled⟩ := BaseUrl.canonical_eq_iff.mp haudience
      exact hspelled.same R hscheme

end Audience

end Agreement

/-! ## One announce -/

/-- A URL on one host, written with the default port or without. -/
def exampleUrl (host : Text) (port : Option Text) (hne : host ≠ [])
    (hchars : ∀ c ∈ host, c ∉ ['/', '\\', '?', '#', '@', ':'] ∧ isWhitespace c = false)
    (hport : ∀ p ∈ port, p ≠ [] ∧ ∀ c ∈ p, c.isDigit = true) (slashes : ℕ) : WrittenUrl where
  scheme := .https
  userinfo := none
  host := host
  port := port
  path := []
  userinfo_chars _ hu := nomatch hu
  host_ne := hne
  host_chars c hc := ⟨fun h => (hchars c hc).1 (List.mem_append_left [':'] h), (hchars c hc).2⟩
  host_colon h := absurd (by decide) (hchars ':' h).1
  port_digits := hport
  path_start := Or.inl rfl
  path_end _ hc := nomatch hc
  schemeText := "HTTPS".toList
  schemeText_eq := by decide +kernel
  before := []
  after := "\n".toList
  before_blank _ hc := nomatch hc
  after_blank := forall_mem_of_all (by decide +kernel)
  slashes := slashes

/-- The tracker URL of the device, spelled with capitals, the default port and a slash at
the end. -/
def deviceUrl : WrittenUrl :=
  exampleUrl "Tracker.Example".toList (some "443".toList) (by decide +kernel)
    (forall_mem_of_all (by decide +kernel)) (fun p hp => by
      cases hp
      exact ⟨by decide +kernel, forall_mem_of_all (by decide +kernel)⟩) 1

/-- The public URL of the registry, spelled plainly; it is the same origin as the device's. -/
def registryUrl : WrittenUrl :=
  exampleUrl "tracker.example".toList none (by decide +kernel)
    (forall_mem_of_all (by decide +kernel)) nofun 0

/-- The public URL of another registry, to which no request of the device is addressed. -/
def otherUrl : WrittenUrl :=
  exampleUrl "tracker.other".toList none (by decide +kernel)
    (forall_mem_of_all (by decide +kernel)) nofun 0

/-- A node key with one signature it made, over the text of an announce; it stands for the
key the device keeps. -/
def knownAnnounce : KnownSecret where
  secret := (List.range 32).map UInt8.ofNat
  key := ofNumber 32 0x03a107bff3ce10be1d70dd18e74bc09967e4d6309ba50d5f1ddc8664125531b8
  message := (payloadText "announce".toList
    "03a107bff3ce10be1d70dd18e74bc09967e4d6309ba50d5f1ddc8664125531b8".toList 1700000000000
    "nodeabc".toList "https://tracker.example".toList
    [List.replicate 64 'a', List.replicate 64 'b']).utf8
  sig := ofNumber 64 0xff1d9fd44b9109945a61928dc2a6915a649b12710ae7c902f5447fc32da546b9c88a5fb818014ca2503a8d8e5e9e66ee5db779e1c7a45469bf9fba999ff76109
  value := ("/x2f1EuRCZRaYZKNwqaRWmSbEnEK58kC9UR/wy2lRrnIil+4GAFMolA6jY5enmbuXbd54cekVGm/" ++
    "n7qZn/dhCQ==").toList

/-- An announce of two files, listed in the order `b`, `a`, which is not the order they are
signed in. -/
def exampleAnnounce : ClientRequest :=
  .announce "nodeabc".toList "Study".toList
    (["b", "a"].map fun c =>
      { blake3 := List.replicate 64 (c.toList.headD 'a'), sha256 := [], name := "model".toList
        size := 4920000000, size_lt := by decide, quant := [], license := "apache-2.0".toList
        magnet := [], listable := true })

/-- The letter case of the letters that Latin-1 has, but for the two that have no capital there. -/
def foldLatin (c : Char) : Char :=
  if 'À' ≤ c ∧ c ≤ 'Þ' ∧ c ≠ '×' then Char.ofNat (c.toNat + 32) else c.toLower

/-- A letter and the one it has in lower case are folded alike. -/
theorem foldLatin_toLower (c : Char) : foldLatin c.toLower = foldLatin c := by
  by_cases hc : c.toNat < 128
  · exact forall_char_lt (p := fun c => foldLatin c.toLower = foldLatin c) (by decide +kernel) c hc
  · have hupper : ¬ ('A'.val ≤ c.val ∧ c.val ≤ 'Z'.val) := fun h =>
      hc (lt_of_le_of_lt (UInt32.le_iff_toNat_le.mp h.2) (by decide))
    rw [show c.toLower = c from dif_neg hupper]

/-- Hosts in the letters of Latin-1, in either case, which a client may fold together though
the code does not; a path is taken as it is written. -/
def latinHosts : UrlReading where
  host s := s.map foldLatin
  path s := s
  ascii s t h := by
    have hfold : ∀ s : Text, s.map foldLatin = s.toAsciiLowercase.map foldLatin := by
      intro s
      unfold toAsciiLowercase
      rw [List.map_map]
      exact List.map_congr_left fun c _ => (foldLatin_toLower c).symm
    rw [hfold s, hfold t, h]

/-- The announce is authorised by the device's registry, and by no other. -/
theorem example_announce_authorized :
    ∃ body, exampleAnnounce.signed (.knowing [knownAnnounce]) hexEncode (some knownAnnounce.secret)
        1700000000000 deviceUrl.text = some body ∧
      exampleAnnounce.authorized (SigningScheme.knowing [knownAnnounce]).toSignatureScheme
        ⟨registryUrl.text, true⟩ 1700000240000 body = true ∧
      exampleAnnounce.authorized (SigningScheme.knowing [knownAnnounce]).toSignatureScheme
        ⟨otherUrl.text, true⟩ 1700000240000 body = false := by
  have hcorrect := SigningScheme.knowing_correct
    (show KnownSecret.Consistent [knownAnnounce] by decide +kernel)
  obtain ⟨body, hbody⟩ : ∃ body, exampleAnnounce.signed (.knowing [knownAnnounce]) hexEncode
      (some knownAnnounce.secret) (1700000000000 : Int64).toInt deviceUrl.text = some body := by
    refine Option.isSome_iff_exists.mp ?_
    decide +kernel
  -- the one signature that is known is of this payload
  have hbinds : ∀ secret ∈ some knownAnnounce.secret, ∀ p,
      canonicalPayload exampleAnnounce.method.name
        (hexEncode ((SigningScheme.knowing [knownAnnounce]).publicKey secret))
        (1700000000000 : Int64).toInt exampleAnnounce.ticket deviceUrl.text exampleAnnounce.ids =
          some p → (SigningScheme.knowing [knownAnnounce]).Binds secret p := by
    intro secret hsecret p hp
    cases hsecret
    have hpayload : canonicalPayload exampleAnnounce.method.name
        (hexEncode ((SigningScheme.knowing [knownAnnounce]).publicKey knownAnnounce.secret))
        (1700000000000 : Int64).toInt exampleAnnounce.ticket deviceUrl.text exampleAnnounce.ids =
          some knownAnnounce.message := by
      decide +kernel
    cases hpayload.symm.trans hp
    intro message haccepts
    obtain ⟨-, sig, hsig, hverifies⟩ := SignatureScheme.accepts_eq_true haccepts
    have hknown : (SigningScheme.knowing [knownAnnounce]).base64Decode
        ((SigningScheme.knowing [knownAnnounce]).base64Encode
          ((SigningScheme.knowing [knownAnnounce]).sign knownAnnounce.secret
            knownAnnounce.message)) = some knownAnnounce.sig := by
      decide +kernel
    cases hknown.symm.trans hsig
    obtain hany | hzero := Bool.or_eq_true_iff.mp hverifies
    · obtain ⟨k, hk, hmatch⟩ := List.any_eq_true.mp hany
      rw [← (of_decide_eq_true hmatch).2.1, List.mem_singleton.mp hk]
    · exact absurd (of_decide_eq_true hzero) (by decide +kernel)
  have hboth := fun publicUrl => @honest_request_agrees_iff (.knowing [knownAnnounce]) hexEncode
    _ _ deviceUrl publicUrl _ _ latinHosts hcorrect
    (fun key _ => Or.inl (toAsciiLowercase_hexEncode key)) hbody hbinds true
  refine ⟨body, hbody, ?_, ?_⟩
  · exact ((hboth registryUrl).mpr fun _ =>
      ⟨rfl, by decide +kernel, by decide +kernel, rfl⟩).accepted
      ⟨by decide +kernel, rfl⟩ _ (by decide) (by decide)
  · refine ((hboth otherUrl).mpr fun h => ?_).refused (fun h => ?_) _
    · exact absurd h.1 (by decide +kernel)
    · exact absurd h.1 (by decide +kernel)

/-- The default port of the registry, with a zero before it, so that its text is not the
canonical one. -/
def paddedUrl : WrittenUrl :=
  exampleUrl "tracker.example".toList (some "0443".toList) (by decide +kernel)
    (forall_mem_of_all (by decide +kernel)) (fun p hp => by
      cases hp
      exact ⟨by decide +kernel, forall_mem_of_all (by decide +kernel)⟩) 0

/-- The tracker URL of a device, with a capital that is not an ASCII letter. -/
def capitalUrl : WrittenUrl :=
  exampleUrl ('É' :: ".example".toList) none (by decide +kernel)
    (forall_mem_of_all (by decide +kernel)) (fun _ hp => by cases hp) 0

/-- The same URL in lower case, as the registry's configuration may have it. -/
def smallUrl : WrittenUrl :=
  exampleUrl ('é' :: ".example".toList) none (by decide +kernel)
    (forall_mem_of_all (by decide +kernel)) (fun _ hp => by cases hp) 0

/-- The signature that is made for that URL, over the audience with the capital letter kept. -/
def knownCapital : KnownSecret where
  secret := knownAnnounce.secret
  key := knownAnnounce.key
  message := (payloadText "announce".toList
    "03a107bff3ce10be1d70dd18e74bc09967e4d6309ba50d5f1ddc8664125531b8".toList 1700000000000
    "nodeabc".toList ("https://".toList ++ 'É' :: ".example".toList)
    [List.replicate 64 'a', List.replicate 64 'b']).utf8
  sig := ofNumber 64 0xc2c4dfbe01602bef28f6dca8d2f2def6ba275a9a531fd44e5bb2a2f88cd0032d915745d553864e00ba2146cfe775b748557e3e00817f69aa75fc7269a918c508
  value := ("wsTfvgFgK+8o9tyo0vLe9ronWppTH9ROW7Ki+IzQAy2RV0XVU4ZOALohRs/ndbdIVX4+AIF/aap1/HJpqRjF" ++
    "CA==").toList

/-- The tracker URL of a device and the registry's public URL have one origin, and the announce
that the device signs, whose key the registry knows, is refused at the very time it is for. -/
def RefusedFrom (known : KnownSecret) (trackerUrl publicUrl : WrittenUrl) : Prop :=
  trackerUrl.Same latinHosts publicUrl.toBaseUrl ∧
    (exampleAnnounce.signed (.knowing [known]) hexEncode (some known.secret) 1700000000000
        trackerUrl.text).map
      (exampleAnnounce.authorized (SigningScheme.knowing [known]).toSignatureScheme
        ⟨publicUrl.text, true⟩ 1700000000000) = some false

/-- **Two ways to write one URL**, of which the registry has the other: a leading zero in the
port, and a capital that is not an ASCII letter. The announce of an honest device is refused. -/
theorem two_spellings_refused :
    RefusedFrom knownAnnounce deviceUrl paddedUrl ∧
      RefusedFrom knownCapital capitalUrl smallUrl :=
  ⟨⟨⟨by decide +kernel, rfl⟩, by decide +kernel⟩, ⟨⟨by decide +kernel, rfl⟩, by decide +kernel⟩⟩

end Atlas
