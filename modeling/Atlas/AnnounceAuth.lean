import Std.Data.String.ToInt
import Mathlib.Data.List.Sort
import Atlas.Delimited
import Atlas.Signature

/-!
# Signed announces

A device announces what it shares, and withdraws it, with a request signed by
its node key over a canonical payload: the method, the node id, the time, the
audience, the ticket and the sorted content ids, a line each. What a signature
authorises is a payload, so two requests with the same payload are
interchangeable.

They need not be the same request. A node id, an audience or a ticket may hold
a line break, and empty ids are left out of the payload. Two acceptable
requests with the same payload are the same exactly when their fields hold as
many line breaks each and they have as many empty ids
(`canonicalPayload_same_iff`).
-/

namespace Atlas

open Text

/-! ## The canonical payload -/

/-- Max lag of a timestamp behind the registry clock, five minutes. -/
def FRESHNESS_WINDOW_MS : ℤ := 5 * 60 * 1000

/-- Max a timestamp may sit in the future (signer clock skew), three minutes. -/
def FUTURE_SKEW_MS : ℤ := 3 * 60 * 1000

/-- Canonicalize a registry base URL into the audience token bound by the
signature: scheme and host in lower case, no default port, no slash at the end. -/
def canonicalAudience (url : Text) : Text :=
  let s := trimEndMatches "/".toList url.trim
  match splitOnce "://".toList s with
  -- no scheme: the whole thing is a host-like token
  | none => s.toAsciiLowercase
  | some (scheme, rest) =>
    let scheme := scheme.toAsciiLowercase
    let (authority, path) := match splitOnce "/".toList rest with
      | some (a, p) => (a, some p)
      | none => (rest, none)
    let authority := authority.toAsciiLowercase
    let authority :=
      if scheme = "https".toList then trimEndMatches ":443".toList authority
      else if scheme = "http".toList then trimEndMatches ":80".toList authority
      else authority
    match path with
    | some p => scheme ++ "://".toList ++ authority ++ "/".toList ++ p
    | none => scheme ++ "://".toList ++ authority

/-- A canonical content id: 64 lower-case hexadecimal digits. Rejecting others
stops an id smuggling a line break to forge extra payload fields. -/
def isCanonicalId (id : Text) : Bool :=
  id.utf8Len = 64 && id.all fun c => ('0' ≤ c ∧ c ≤ '9') ∨ ('a' ≤ c ∧ c ≤ 'f')

/-- The lines of the payload: what is signed, before it is bytes. -/
def payloadText (method nodeId : Text) (tsMs : ℤ) (ticket audience : Text)
    (ids : List Text) : Text :=
  method ++ '\n' :: (nodeId ++ '\n' :: ((toString tsMs).toList ++ '\n' ::
    (canonicalAudience audience ++ '\n' :: (ticket ++ Delimited.block '\n' ids))))

/-- Build the canonical payload both sides sign and verify, or nothing if an
item id isn't canonical. Ids are sorted, so that their order does not matter. -/
def canonicalPayload (method nodeId : Text) (tsMs : ℤ) (ticket audience : Text)
    (itemIds : List Text) : Option Bytes :=
  let ids := itemIds.filter fun s => !s.isEmpty
  if !ids.all isCanonicalId then none
  else some (payloadText method nodeId tsMs ticket audience
    (ids.insertionSort (· ≤ ·))).utf8

/-! ## Verification -/

/-- The value of a base32 digit, in either case, or nothing where the byte is none. -/
def base32Value (c : UInt8) : Option UInt32 :=
  if 0x41 ≤ c ∧ c ≤ 0x5A then some (c - 0x41).toUInt32
  else if 0x61 ≤ c ∧ c ≤ 0x7A then some (c - 0x61).toUInt32
  else if 0x32 ≤ c ∧ c ≤ 0x37 then some (c - 0x32 + 26).toUInt32
  else none

/-- Five bits a digit, a byte whenever there are eight; stops at padding. -/
def base32Loop : Bytes → Bytes → UInt32 → ℕ → Option (Bytes × UInt32 × ℕ)
  | [], out, buffer, bits => some (out, buffer, bits)
  | c :: rest, out, buffer, bits =>
    -- `=`: tolerate stray padding even though none is expected
    if c = 0x3D then some (out, buffer, bits)
    else match base32Value c with
      | none => none
      | some v =>
        let buffer := buffer <<< 5 ||| v
        if 8 ≤ bits + 5 then
          base32Loop rest (out ++ [(buffer >>> UInt32.ofNat (bits + 5 - 8)).toUInt8]) buffer
            (bits + 5 - 8)
        else base32Loop rest out buffer (bits + 5)

/-- Decode an RFC 4648 base32 string (no padding, either case) to bytes. A valid
encoding leaves only zero padding bits, fewer than five, in the tail. -/
def base32Decode (input : Text) : Option Bytes :=
  match base32Loop input.utf8 [] 0 0 with
  | none => none
  | some (out, buffer, bits) =>
    if 5 ≤ bits ∨ buffer &&& (1 <<< UInt32.ofNat bits - 1) ≠ 0 then none else some out

/-- Decode a node id to its 32 raw Ed25519 public-key bytes: 64 characters are
hexadecimal, anything else is base32. -/
def decodeNodeId (nodeId : Text) : Option Bytes :=
  let s := nodeId.trim
  if s.utf8Len = 64 then hexDecode s
  else (base32Decode s).bind fun bytes => if bytes.length = 32 then some bytes else none

/-- A timestamp is fresh when it is at most `FUTURE_SKEW_MS` ahead of the clock and at most
`FRESHNESS_WINDOW_MS` behind it; the difference saturates, so no timestamp overflows it. -/
def tsIsFresh (tsMs nowMs : ℤ) : Bool :=
  let delta := saturatingSub nowMs tsMs
  decide (-FUTURE_SKEW_MS ≤ delta ∧ delta ≤ FRESHNESS_WINDOW_MS)

/-- Verify an announce or withdraw signature against the claimed node id: the timestamp is
fresh, the node id is a key, and the signature is that key's over the canonical payload. -/
def verify (S : SignatureScheme) (method nodeId : Text) (tsMs : ℤ) (ticket audience : Text)
    (itemIds : List Text) (signatureB64 : Text) (nowMs : ℤ) : Bool :=
  if !tsIsFresh tsMs nowMs then false
  else match canonicalPayload method nodeId tsMs ticket audience itemIds with
    | none => false
    | some payload => match decodeNodeId nodeId with
      | none => false
      | some key => S.accepts key payload signatureB64

/-! ## Requests -/

/-- What a peer asks a registry to do: to list the files it offers, or to take listed files
back. -/
inductive AnnounceMethod where
  | announce
  | withdraw
  deriving DecidableEq, Repr

/-- The word for the method at the head of the payload that is signed. -/
def AnnounceMethod.name : AnnounceMethod → Text
  | announce => "announce".toList
  | withdraw => "withdraw".toList

/-- What a signature is asked to authorise: the method, who asks and when, for which
registry, under which ticket, and for which items. -/
structure AnnounceRequest where
  method : AnnounceMethod
  nodeId : Text
  tsMs : ℤ
  audience : Text
  ticket : Text
  itemIds : List Text
  deriving DecidableEq, Repr

namespace AnnounceRequest

/-- The canonical bytes of a request, or nothing if one of its texts cannot be made part of
them. -/
def payload (r : AnnounceRequest) : Option Bytes :=
  canonicalPayload r.method.name r.nodeId r.tsMs r.ticket r.audience r.itemIds

/-- Whether the signature over the canonical bytes is good for the key that the node id is,
at a time when the request is fresh. -/
def verify (S : SignatureScheme) (r : AnnounceRequest) (signatureB64 : Text) (nowMs : ℤ) :
    Bool :=
  Atlas.verify S r.method.name r.nodeId r.tsMs r.ticket r.audience r.itemIds signatureB64 nowMs

/-- Verification can accept the request: it has a payload, and its node id
decodes to a key. -/
structure Acceptable (S : SignatureScheme) (r : AnnounceRequest) : Prop where
  payload : r.payload ≠ none
  key : ∃ key, decodeNodeId r.nodeId = some key ∧ S.validKey key = true

/-- **Two requests ask for the same**: their ids agree up to order, and
everything else agrees. -/
structure Same (r r' : AnnounceRequest) : Prop where
  method : r.method = r'.method
  nodeId : r.nodeId = r'.nodeId
  tsMs : r.tsMs = r'.tsMs
  audience : canonicalAudience r.audience = canonicalAudience r'.audience
  ticket : r.ticket = r'.ticket
  itemIds : r.itemIds.Perm r'.itemIds

/-- Two requests hold as many line breaks in each field, and as many empty ids. -/
structure SameShape (r r' : AnnounceRequest) : Prop where
  nodeId : r.nodeId.count '\n' = r'.nodeId.count '\n'
  audience : (canonicalAudience r.audience).count '\n' =
    (canonicalAudience r'.audience).count '\n'
  ticket : r.ticket.count '\n' = r'.ticket.count '\n'
  itemIds : r.itemIds.count [] = r'.itemIds.count []

end AnnounceRequest

/-! ## What a payload determines -/

theorem not_mem_name (m : AnnounceMethod) : '\n' ∉ m.name := by
  cases m <;> decide

theorem not_mem_natRepr (n : ℕ) : '\n' ∉ n.repr.toList := by
  intro hmem
  rw [Nat.toList_repr] at hmem
  exact absurd (Nat.isDigit_of_mem_toDigits (by decide) (by decide) hmem) (by decide)

/-- A decimal holds no line break. -/
theorem not_mem_toString (n : ℤ) : '\n' ∉ (toString n).toList := by
  rw [Int.toString_eq_repr, Int.repr_eq_if]
  by_cases hn : 0 ≤ n
  · rw [if_pos hn]
    exact not_mem_natRepr _
  · rw [if_neg hn, String.toList_append, List.mem_append, not_or]
    exact ⟨by decide, not_mem_natRepr _⟩

theorem not_mem_of_isCanonicalId {id : Text} (h : isCanonicalId id = true) :
    '\n' ∉ id := by
  intro hmem
  have hall := List.all_eq_true.mp (Bool.and_eq_true_iff.mp h).2 _ hmem
  exact absurd hall (by decide)

/-- The lines of a payload determine its fields, given how many line breaks the
fields hold. -/
theorem payloadText_inj {m m' : AnnounceMethod} {nodeId nodeId' : Text} {ts ts' : ℤ}
    {ticket ticket' audience audience' : Text} {ids ids' : List Text}
    (hids : ∀ id ∈ ids, '\n' ∉ id) (hids' : ∀ id ∈ ids', '\n' ∉ id)
    (hnode : nodeId.count '\n' = nodeId'.count '\n')
    (haudience : (canonicalAudience audience).count '\n' =
      (canonicalAudience audience').count '\n')
    (hticket : ticket.count '\n' = ticket'.count '\n')
    (h : payloadText m.name nodeId ts ticket audience ids =
      payloadText m'.name nodeId' ts' ticket' audience' ids') :
    m = m' ∧ nodeId = nodeId' ∧ ts = ts' ∧
      canonicalAudience audience = canonicalAudience audience' ∧ ticket = ticket' ∧
      ids = ids' := by
  have hnone : ∀ {s t : Text}, '\n' ∉ s → '\n' ∉ t → s.count '\n' = t.count '\n' :=
    fun hs ht => (List.count_eq_zero_of_not_mem hs).trans (List.count_eq_zero_of_not_mem ht).symm
  unfold payloadText at h
  obtain ⟨hm, h⟩ := Delimited.append_cons_inj (hnone (not_mem_name m) (not_mem_name m')) h
  obtain ⟨hn, h⟩ := Delimited.append_cons_inj hnode h
  obtain ⟨hts, h⟩ := Delimited.append_cons_inj
    (hnone (not_mem_toString ts) (not_mem_toString ts')) h
  obtain ⟨ha, h⟩ := Delimited.append_cons_inj haudience h
  obtain ⟨ht, hi⟩ := Delimited.append_block_inj hids hids' hticket h
  refine ⟨?_, hn, Int.repr_injective (String.toList_inj.mp hts), ha, ht, hi⟩
  revert hm
  cases m <;> cases m' <;> decide

/-- A payload's ids are canonical, and agree with the request's up to order and
the empty ones. -/
theorem canonicalPayload_eq_some {method nodeId : Text} {ts : ℤ} {ticket audience : Text}
    {itemIds : List Text} {p : Bytes}
    (h : canonicalPayload method nodeId ts ticket audience itemIds = some p) :
    ∃ ids, p = (payloadText method nodeId ts ticket audience ids).utf8 ∧
      ids.Perm (itemIds.filter fun s => !s.isEmpty) ∧ ∀ id ∈ ids, '\n' ∉ id := by
  unfold canonicalPayload at h
  dsimp only at h
  by_cases hall : (itemIds.filter fun s => !s.isEmpty).all isCanonicalId = true
  · rw [hall] at h
    refine ⟨_, (Option.some.inj h).symm, List.perm_insertionSort _ _, fun id hid => ?_⟩
    exact not_mem_of_isCanonicalId
      (List.all_eq_true.mp hall id ((List.perm_insertionSort _ _).mem_iff.mp hid))
  · rw [Bool.eq_false_iff.mpr hall] at h
    cases h

/-- Lists with the same non-empty ids and as many empty ones are the same up to order. -/
theorem perm_of_filter_perm {ids ids' : List Text}
    (h : (ids.filter fun s => !s.isEmpty).Perm (ids'.filter fun s => !s.isEmpty))
    (hempty : ids.count [] = ids'.count []) : ids.Perm ids' := by
  rw [List.perm_iff_count]
  intro id
  cases id with
  | nil => exact hempty
  | cons c id =>
    have hcount := h.count_eq (c :: id)
    rwa [List.count_filter rfl, List.count_filter rfl] at hcount

/-- **Requests with the same payload are the same request exactly when they
have the same shape.** -/
theorem AnnounceRequest.same_iff_of_payload_eq {r r' : AnnounceRequest}
    (hr : r.payload ≠ none) (h : r.payload = r'.payload) : r.Same r' ↔ r.SameShape r' := by
  constructor
  · intro hsame
    exact ⟨by rw [hsame.nodeId], by rw [hsame.audience], by rw [hsame.ticket],
      hsame.itemIds.count_eq _⟩
  · intro hshape
    obtain ⟨p, hp⟩ := Option.ne_none_iff_exists'.mp hr
    obtain ⟨ids, hids, hperm, hfree⟩ := canonicalPayload_eq_some hp
    obtain ⟨ids', hids', hperm', hfree'⟩ := canonicalPayload_eq_some (h.symm.trans hp)
    obtain ⟨hm, hn, hts, ha, ht, hi⟩ := payloadText_inj hfree hfree' hshape.nodeId
      hshape.audience hshape.ticket (utf8_injective (hids.symm.trans hids'))
    subst hi
    exact ⟨hm, hn, hts, ha, ht, perm_of_filter_perm (hperm.symm.trans hperm') hshape.itemIds⟩

/-- **The payload is injective on what it authorises, exactly up to shape**: two
acceptable requests with the same payload ask for the same if and only if their
fields hold as many line breaks each and they have as many empty ids. -/
theorem canonicalPayload_same_iff {S : SignatureScheme}
    (r r' : { r : AnnounceRequest // r.Acceptable S }) (h : r.1.payload = r'.1.payload) :
    r.1.Same r'.1 ↔ r.1.SameShape r'.1 :=
  AnnounceRequest.same_iff_of_payload_eq r.2.payload h

/-- What verification accepts is acceptable, and signed. -/
theorem AnnounceRequest.verify_eq_true {S : SignatureScheme} {r : AnnounceRequest}
    {signatureB64 : Text} {nowMs : ℤ} (h : r.verify S signatureB64 nowMs = true) :
    r.Acceptable S ∧ ∃ key payload, r.payload = some payload ∧
      S.accepts key payload signatureB64 = true := by
  unfold AnnounceRequest.verify Atlas.verify at h
  split at h
  · cases h
  · split at h
    · cases h
    · rename_i payload hpayload
      split at h
      · cases h
      · rename_i key hkey
        refine ⟨⟨fun hnone => ?_, key, hkey, (SignatureScheme.accepts_eq_true h).1⟩, key,
          payload, hpayload, h⟩
        rw [AnnounceRequest.payload, hpayload] at hnone
        cases hnone

/-- **A captured signature authorises requests of one payload only**, if a
signature is of one message only. -/
theorem AnnounceRequest.verify_same_iff {S : SignatureScheme}
    (hideal : ∀ key key' m m' sig, S.verifies key m sig → S.verifies key' m' sig → m = m')
    {r r' : AnnounceRequest} {signatureB64 : Text} {nowMs nowMs' : ℤ}
    (h : r.verify S signatureB64 nowMs = true) (h' : r'.verify S signatureB64 nowMs' = true) :
    r.Same r' ↔ r.SameShape r' := by
  obtain ⟨hacc, key, p, hp, haccepts⟩ := verify_eq_true h
  obtain ⟨-, key', p', hp', haccepts'⟩ := verify_eq_true h'
  obtain ⟨-, sig, hsig, hverifies⟩ := SignatureScheme.accepts_eq_true haccepts
  obtain ⟨-, sig', hsig', hverifies'⟩ := SignatureScheme.accepts_eq_true haccepts'
  rw [hsig] at hsig'
  cases hsig'
  have hsame := hideal key key' p p' sig hverifies hverifies'
  exact same_iff_of_payload_eq hacc.payload (by rw [hp, hp', hsame])

/-! ## Two requests with one payload -/

/-- A scheme that knows one key, the base point of the curve. -/
def basePointScheme : SignatureScheme where
  validKey key := key = 0x58 :: List.replicate 31 0x66
  verifies _ _ _ := false
  base64Decode _ := none

/-- The node id of that key, in the 64 hexadecimal digits a registry expects. -/
def basePointNodeId : Text := '5' :: '8' :: List.replicate 62 '6'

/-- A withdrawal of the items given, from the same node, at the same time, addressed to the
same registry. -/
def withdrawal (itemIds : List Text) : AnnounceRequest where
  method := .withdraw
  nodeId := basePointNodeId
  tsMs := 1700000000000
  audience := "https://tracker.example".toList
  ticket := []
  itemIds := itemIds

theorem withdrawal_acceptable {itemIds : List Text} (h : (withdrawal itemIds).payload ≠ none) :
    (withdrawal itemIds).Acceptable basePointScheme :=
  ⟨h, 0x58 :: List.replicate 31 0x66, by
    show decodeNodeId basePointNodeId = _
    decide +kernel, by decide +kernel⟩

/-- **A withdrawal of everything has the payload of one that names an empty
id**, which withdraws nothing. -/
theorem withdrawal_of_everything_interchangeable :
    ∃ r r' : { r : AnnounceRequest // r.Acceptable basePointScheme },
      r.1.payload = r'.1.payload ∧ r.1.itemIds = [] ∧ r'.1.itemIds ≠ [] ∧
        ¬ r.1.Same r'.1 :=
  ⟨⟨withdrawal [], withdrawal_acceptable (by decide +kernel)⟩,
    ⟨withdrawal [[]], withdrawal_acceptable (by decide +kernel)⟩, by decide +kernel, rfl,
    List.cons_ne_nil _ _, fun h => absurd h.itemIds.length_eq (by decide)⟩

/-- Withdrawals of two ids in either order have one payload and ask for the same. -/
theorem withdrawal_order_irrelevant :
    (withdrawal [List.replicate 64 'a', List.replicate 64 'b']).Same
      (withdrawal [List.replicate 64 'b', List.replicate 64 'a']) :=
  (canonicalPayload_same_iff
    ⟨withdrawal [List.replicate 64 'a', List.replicate 64 'b'],
      withdrawal_acceptable (by decide +kernel)⟩
    ⟨withdrawal [List.replicate 64 'b', List.replicate 64 'a'],
      withdrawal_acceptable (by decide +kernel)⟩ (by decide +kernel)).mpr
    ⟨rfl, rfl, rfl, by decide +kernel⟩

end Atlas
