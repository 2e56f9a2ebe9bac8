import Atlas.Document
import Atlas.Signature
import Atlas.Transition

/-!
# Signing a manifest

A key pair signs a manifest in place: its descriptor is embedded among the
publisher's keys unless one with its key id is there, an earlier signature of the key
is dropped, and a signature over the canonical bytes is appended. The descriptors are
among what is signed, so embedding one more changes what every earlier signer
signed.

`sign_all_valid_iff` says when a series of signers ends with all of them valid, and
no valid signature lost on the way: the later signers' descriptors are in the manifest
before anyone signs, the first signer's is too unless nothing valid is there yet, and
each descriptor that is there carries its key.
-/

namespace Atlas

open Text Json Transition

variable {S : SigningScheme}

/-! ## Keys -/

/-- A key pair used to sign manifests, by its secret seed; the public key and the id of the
key are computed from the seed. -/
structure KeyPair where
  secret : Bytes
  deriving DecidableEq, Repr

/-- What the id of a key starts with by convention, before the key. -/
def keyIdPrefix : Text := "ed25519:".toList

namespace KeyPair

variable (S) in
/-- The public key as hex, which is how descriptors and node ids carry it. -/
def publicHex (k : KeyPair) : Text := hexEncode (S.publicKey k.secret)

variable (S) in
/-- The conventional key id, which is the prefix and the whole public key in hexadecimal. -/
def keyId (k : KeyPair) : Text := keyIdPrefix ++ k.publicHex S

variable (S) in
/-- The descriptor to embed in a manifest, so that its verifiers find the key under the id. -/
def publicKeyDescriptor (k : KeyPair) : PublicKey where
  keyId := k.keyId S
  algorithm := .ed25519
  publicKey := k.publicHex S
  purpose := ["manifest-signing".toList]

end KeyPair

/-! ## Signing and verifying -/

/-- A key id has a descriptor in the manifest, so that a verifier can find the public key
for a signature under this id. -/
def DocumentBody.Embeds (d : DocumentBody) (keyId : Text) : Prop :=
  ∃ k ∈ d.publisher.publicKeys, k.keyId = keyId

instance (d : DocumentBody) (keyId : Text) : Decidable (d.Embeds keyId) :=
  inferInstanceAs (Decidable (∃ k ∈ d.publisher.publicKeys, k.keyId = keyId))

/-- A manifest with one more descriptor, at the end of its publisher's list. -/
def DocumentBody.embed (d : DocumentBody) (k : PublicKey) : DocumentBody :=
  { d with publisher := { d.publisher with publicKeys := d.publisher.publicKeys ++ [k] } }

variable (S) in
/-- Sign a manifest in place: embed the descriptor unless one has the id, and replace a
signature of the same id. -/
def KeyPair.signManifest (k : KeyPair) (manifest : Document) : Document :=
  let keyId := k.keyId S
  -- the descriptor comes before canonicalization, so that the signature commits to it
  let body := if manifest.Embeds keyId then manifest.toDocumentBody
    else manifest.embed (k.publicKeyDescriptor S)
  -- re-signing is idempotent
  let signatures := manifest.signatures.filter fun s => s.keyId ≠ keyId
  let bytes := Document.canonicalBytes ⟨body, signatures⟩
  let sig := S.sign k.secret bytes
  ⟨body, signatures ++ [⟨keyId, .ed25519, S.base64Encode sig⟩]⟩

/-- The outcome of verifying a manifest's signatures: which key ids verified, and which did not. -/
structure VerificationReport where
  /-- Key ids whose signatures verified against their embedded public key. -/
  validSignatures : List Text
  invalidSignatures : List Text
  totalSignatures : ℕ
  deriving DecidableEq, Repr

variable (S) in
/-- Whether a signature is that of the key its key id names, and the descriptor has
the same key. -/
def verifyOne (bytes : Bytes) (pk : PublicKey) (sig : Signature) : Bool :=
  if keyIdPrefix.isPrefixOf sig.keyId then
    let keyHex := sig.keyId.drop keyIdPrefix.length
    if !eqIgnoreAsciiCase pk.publicKey keyHex then false
    else match hexDecode keyHex with
      | none => false
      | some key => S.accepts key bytes sig.signature
  else false

/-- The descriptor of a key id, the first where several have it. -/
def DocumentBody.descriptor (d : DocumentBody) (keyId : Text) : Option PublicKey :=
  d.publisher.publicKeys.find? fun k => k.keyId = keyId

variable (S) in
/-- Whether a signature of a manifest verifies, over given bytes: its key has a descriptor
in the manifest, and the algorithm accepts it with that key. -/
def DocumentBody.verifies (d : DocumentBody) (bytes : Bytes) (sig : Signature) : Bool :=
  match d.descriptor sig.keyId with
  | none => false
  | some pk => verifyOne S bytes pk sig

variable (S) in
/-- Verify every signature on a manifest against the public keys embedded in the
manifest itself. -/
def verifyManifest (manifest : Document) : VerificationReport :=
  let bytes := manifest.canonicalBytes
  manifest.signatures.foldl (fun report sig =>
    if manifest.verifies S bytes sig then
      { report with validSignatures := report.validSignatures ++ [sig.keyId] }
    else { report with invalidSignatures := report.invalidSignatures ++ [sig.keyId] })
    ⟨[], [], manifest.signatures.length⟩

variable (S) in
/-- A key id is reported as valid, which is what trust is decided by. -/
def Document.Valid (d : Document) (keyId : Text) : Prop :=
  keyId ∈ (verifyManifest S d).validSignatures

instance (d : Document) (keyId : Text) : Decidable (d.Valid S keyId) :=
  inferInstanceAs (Decidable (keyId ∈ (verifyManifest S d).validSignatures))

/-- **What is reported as valid** are the key ids of the signatures that verify. -/
theorem validSignatures_eq (d : Document) :
    (verifyManifest S d).validSignatures =
      (d.signatures.filter (d.verifies S d.canonicalBytes)).map Signature.keyId := by
  have hfold : ∀ (l : List Signature) (report : VerificationReport),
      (l.foldl (fun report sig =>
        if d.verifies S d.canonicalBytes sig then
          { report with validSignatures := report.validSignatures ++ [sig.keyId] }
        else { report with invalidSignatures := report.invalidSignatures ++ [sig.keyId] })
        report).validSignatures =
      report.validSignatures ++
        (l.filter (d.verifies S d.canonicalBytes)).map Signature.keyId := by
    intro l
    induction l with
    | nil => exact fun report => (List.append_nil _).symm
    | cons s l ih =>
      intro report
      rw [List.foldl_cons, ih]
      split
      · rename_i h
        rw [List.filter_cons_of_pos h, List.map_cons, List.append_assoc]
        rfl
      · rename_i h
        rw [List.filter_cons_of_neg h]
  exact (hfold d.signatures _).trans (List.nil_append _)

theorem Document.valid_iff {d : Document} {keyId : Text} :
    d.Valid S keyId ↔
      ∃ s ∈ d.signatures, s.keyId = keyId ∧ d.verifies S d.canonicalBytes s = true := by
  unfold Document.Valid
  rw [validSignatures_eq, List.mem_map]
  constructor
  · rintro ⟨s, hs, rfl⟩
    obtain ⟨hmem, hverifies⟩ := List.mem_filter.mp hs
    exact ⟨s, hmem, rfl, hverifies⟩
  · rintro ⟨s, hmem, rfl, hverifies⟩
    exact ⟨s, List.mem_filter.mpr ⟨hmem, hverifies⟩, rfl⟩

/-! ## Descriptors -/

theorem DocumentBody.descriptor_eq_none {d : DocumentBody} {keyId : Text} :
    d.descriptor keyId = none ↔ ¬ d.Embeds keyId := by
  unfold DocumentBody.descriptor DocumentBody.Embeds
  rw [List.find?_eq_none]
  constructor
  · rintro h ⟨k, hk, heq⟩
    exact h k hk (decide_eq_true heq)
  · intro h k hk heq
    exact h ⟨k, hk, of_decide_eq_true heq⟩

/-- A descriptor is added after those that are there. -/
theorem DocumentBody.descriptor_embed (d : DocumentBody) (k : PublicKey) (keyId : Text) :
    (d.embed k).descriptor keyId =
      (d.descriptor keyId).or (if k.keyId = keyId then some k else none) := by
  show (d.publisher.publicKeys ++ [k]).find? _ = _
  rw [List.find?_append, List.find?_singleton]
  exact congrArg _ (if_congr decide_eq_true_iff rfl rfl)

/-- The descriptor of a key pair that is in a manifest, if there is one, carries its key. -/
def DocumentBody.Honest (S : SigningScheme) (d : DocumentBody) (k : KeyPair) : Prop :=
  ∀ pk ∈ d.descriptor (k.keyId S), eqIgnoreAsciiCase pk.publicKey (k.publicHex S) = true

instance (d : DocumentBody) (k : KeyPair) : Decidable (d.Honest S k) :=
  inferInstanceAs (Decidable (∀ pk ∈ d.descriptor (k.keyId S), _))

/-- **A key pair's own signature** verifies over what it signed if the descriptor
carries its key. -/
theorem verifyOne_sign (hS : S.Correct) (k : KeyPair) (bytes : Bytes) (pk : PublicKey) :
    verifyOne S bytes pk ⟨k.keyId S, .ed25519, S.base64Encode (S.sign k.secret bytes)⟩ =
      eqIgnoreAsciiCase pk.publicKey (k.publicHex S) := by
  have hdrop : (k.keyId S).drop keyIdPrefix.length = k.publicHex S := List.drop_left
  have hprefix : keyIdPrefix.isPrefixOf (k.keyId S) = true :=
    List.isPrefixOf_iff_prefix.mpr (List.prefix_append _ _)
  unfold verifyOne
  dsimp only
  rw [if_pos hprefix, hdrop]
  cases heq : eqIgnoreAsciiCase pk.publicKey (k.publicHex S) with
  | false => rfl
  | true =>
    have hdecode : hexDecode (k.publicHex S) = some (S.publicKey k.secret) :=
      hexDecode_hexEncode _
    rw [hdecode]
    exact hS.accepts k.secret bytes

/-! ## One signer -/

/-- The descriptors after a key pair has signed, with its own among them. -/
def KeyPair.signedBody (S : SigningScheme) (k : KeyPair) (d : DocumentBody) : DocumentBody :=
  if d.Embeds (k.keyId S) then d else d.embed (k.publicKeyDescriptor S)

theorem KeyPair.signManifest_body (k : KeyPair) (d : Document) :
    (k.signManifest S d).toDocumentBody = k.signedBody S d.toDocumentBody := rfl

theorem KeyPair.signManifest_signatures (k : KeyPair) (d : Document) :
    (k.signManifest S d).signatures =
      (d.signatures.filter fun s => s.keyId ≠ k.keyId S) ++
        [⟨k.keyId S, .ed25519,
          S.base64Encode (S.sign k.secret (k.signManifest S d).canonicalBytes)⟩] := by
  have hbytes : (k.signManifest S d).canonicalBytes = Document.canonicalBytes
      ⟨k.signedBody S d.toDocumentBody, d.signatures.filter fun s => s.keyId ≠ k.keyId S⟩ :=
    Document.canonicalBytes_inj.mpr rfl
  rw [hbytes]
  rfl

/-- The descriptor a key pair finds after it has signed. -/
theorem KeyPair.descriptor_signedBody (k : KeyPair) (d : DocumentBody) :
    (k.signedBody S d).descriptor (k.keyId S) =
      (d.descriptor (k.keyId S)).or (some (k.publicKeyDescriptor S)) := by
  unfold KeyPair.signedBody
  by_cases h : d.Embeds (k.keyId S)
  · rw [if_pos h]
    cases hd : d.descriptor (k.keyId S) with
    | none => exact absurd h (DocumentBody.descriptor_eq_none.mp hd)
    | some pk => rfl
  · have hid : (k.publicKeyDescriptor S).keyId = k.keyId S := rfl
    rw [if_neg h, DocumentBody.descriptor_embed, if_pos hid]

/-- **The signer is valid afterwards** exactly if its descriptor carries its key. -/
theorem KeyPair.valid_signManifest (hS : S.Correct) (k : KeyPair) (d : Document) :
    (k.signManifest S d).Valid S (k.keyId S) ↔ d.Honest S k := by
  have hown : ∀ s ∈ (k.signManifest S d).signatures, s.keyId = k.keyId S →
      s = ⟨k.keyId S, .ed25519,
        S.base64Encode (S.sign k.secret (k.signManifest S d).canonicalBytes)⟩ := by
    intro s hs hid
    rw [KeyPair.signManifest_signatures] at hs
    obtain hold | hnew := List.mem_append.mp hs
    · exact absurd hid (of_decide_eq_true (List.mem_filter.mp hold).2)
    · exact List.mem_singleton.mp hnew
  have hverifies : (k.signManifest S d).verifies S (k.signManifest S d).canonicalBytes
      ⟨k.keyId S, .ed25519,
        S.base64Encode (S.sign k.secret (k.signManifest S d).canonicalBytes)⟩ = true ↔
      d.Honest S k := by
    unfold DocumentBody.verifies DocumentBody.Honest
    dsimp only
    rw [KeyPair.signManifest_body, KeyPair.descriptor_signedBody]
    cases hd : d.descriptor (k.keyId S) with
    | none =>
      show verifyOne S _ _ _ = true ↔ _
      rw [verifyOne_sign hS]
      refine ⟨fun _ pk hpk => ?_, fun _ => eqIgnoreAsciiCase_refl _⟩
      cases hpk
    | some pk =>
      show verifyOne S _ _ _ = true ↔ _
      rw [verifyOne_sign hS]
      exact ⟨fun h pk' hpk' => Option.some.inj hpk' ▸ h, fun h => h pk rfl⟩
  rw [Document.valid_iff, ← hverifies]
  constructor
  · rintro ⟨s, hs, hid, hvalid⟩
    exact hown s hs hid ▸ hvalid
  · intro h
    refine ⟨_, ?_, rfl, h⟩
    rw [KeyPair.signManifest_signatures]
    exact List.mem_append_right _ List.mem_cons_self

/-! ## A series of signers -/

variable (S) in
/-- One signer after another: the manifest one of them leaves is what the next one signs. -/
def signStep (d : Document) (k : KeyPair) : Document := k.signManifest S d

variable (S) in
/-- Sign with each in turn, in the order given. -/
def signAll (ks : List KeyPair) (d : Document) : Document := ks.foldl (signStep S) d

variable (S) in
/-- A signature on a manifest that verifies over its canonical bytes, under the descriptor
the manifest embeds. -/
def Document.Bears (d : Document) (s : Signature) : Prop :=
  s ∈ d.signatures ∧ d.verifies S d.canonicalBytes s = true

variable (S) in
/-- A signer invalidates no valid signature of another key, which is what fails if embedding
the signer's descriptor changes the bytes that were signed. -/
def KeepsValid (d : Document) (k : KeyPair) : Prop :=
  ∀ s, s.keyId ≠ k.keyId S → d.Bears S s → (signStep S d k).Bears S s

variable (S) in
/-- **A signature is good for one message**: none on the manifest verifies over the
canonical bytes before and those after a signer when these differ. -/
def SignaturesBind (d : Document) (k : KeyPair) : Prop :=
  ∀ s ∈ d.signatures, ∀ key, S.accepts key d.canonicalBytes s.signature = true →
    S.accepts key (signStep S d k).canonicalBytes s.signature = true →
      d.canonicalBytes = (signStep S d k).canonicalBytes

/-- What verifies is accepted from some key, and needs a descriptor. -/
theorem verifies_eq_true {d : DocumentBody} {bytes : Bytes} {s : Signature}
    (h : d.verifies S bytes s = true) :
    ∃ pk key, d.descriptor s.keyId = some pk ∧
      eqIgnoreAsciiCase pk.publicKey (s.keyId.drop keyIdPrefix.length) = true ∧
      hexDecode (s.keyId.drop keyIdPrefix.length) = some key ∧
      S.accepts key bytes s.signature = true := by
  unfold DocumentBody.verifies at h
  cases hd : d.descriptor s.keyId with
  | none =>
    rw [hd] at h
    cases h
  | some pk =>
    rw [hd] at h
    unfold verifyOne at h
    dsimp only at h
    split at h
    · split at h
      · cases h
      · rename_i heq
        cases hkey : hexDecode (s.keyId.drop keyIdPrefix.length) with
        | none =>
          rw [hkey] at h
          cases h
        | some key =>
          rw [hkey] at h
          exact ⟨pk, key, rfl, by simpa using heq, rfl, h⟩
    · cases h

/-- A signature that verifies has a descriptor. -/
theorem Document.Bears.embeds {d : Document} {s : Signature} (h : d.Bears S s) :
    d.Embeds s.keyId := by
  obtain ⟨pk, key, hdescriptor, -⟩ := verifies_eq_true h.2
  by_contra hnot
  rw [DocumentBody.descriptor_eq_none.mpr hnot] at hdescriptor
  cases hdescriptor

/-- A valid key id has a descriptor with its key. -/
theorem Document.Valid.honest {d : Document} {k : KeyPair} (h : d.Valid S (k.keyId S)) :
    d.Honest S k := by
  obtain ⟨s, -, hid, hverifies⟩ := Document.valid_iff.mp h
  obtain ⟨pk, key, hdescriptor, heq, -⟩ := verifies_eq_true hverifies
  have hdrop : (k.keyId S).drop keyIdPrefix.length = k.publicHex S := List.drop_left
  rw [hid] at hdescriptor heq
  rw [hdrop] at heq
  intro pk' hpk'
  cases hdescriptor.symm.trans hpk'
  exact heq

/-- Nothing is reported valid exactly if no signature verifies. -/
theorem validSignatures_eq_nil {d : Document} :
    (verifyManifest S d).validSignatures = [] ↔ ∀ s, ¬ d.Bears S s := by
  rw [validSignatures_eq, List.map_eq_nil_iff, List.filter_eq_nil_iff]
  exact ⟨fun h s hs => h s hs.1 hs.2, fun h s hs hv => h s ⟨hs, hv⟩⟩

/-- **A signer whose descriptor is there** keeps every other signature. -/
theorem keepsValid_of_embeds {d : Document} {k : KeyPair} (h : d.Embeds (k.keyId S)) :
    KeepsValid S d k := by
  rintro s hne ⟨hs, hverifies⟩
  have hbody : (signStep S d k).toDocumentBody = d.toDocumentBody := if_pos h
  refine ⟨?_, ?_⟩
  · show s ∈ (k.signManifest S d).signatures
    rw [KeyPair.signManifest_signatures]
    exact List.mem_append_left _ (List.mem_filter.mpr ⟨hs, decide_eq_true hne⟩)
  · rw [Document.canonicalBytes_inj.mpr hbody, hbody]
    exact hverifies

/-- **A signer whose descriptor is not there** invalidates every signature. -/
theorem embeds_of_keepsValid {d : Document} {k : KeyPair} {s : Signature}
    (hbind : SignaturesBind S d k) (hkeeps : KeepsValid S d k) (hs : d.Bears S s) :
    d.Embeds (k.keyId S) := by
  by_contra hnot
  have hne : s.keyId ≠ k.keyId S := fun heq => hnot (heq ▸ hs.embeds)
  obtain ⟨pk, key, -, -, hkey, hbefore⟩ := verifies_eq_true hs.2
  obtain ⟨pk', key', -, -, hkey', hafter⟩ := verifies_eq_true (hkeeps s hne hs).2
  cases hkey.symm.trans hkey'
  have hbody := Document.canonicalBytes_inj.mp (hbind s hs.1 key hbefore hafter)
  have hkeys : d.publisher.publicKeys =
      d.publisher.publicKeys ++ [k.publicKeyDescriptor S] := by
    have hstep : (signStep S d k).toDocumentBody =
        d.toDocumentBody.embed (k.publicKeyDescriptor S) := if_neg hnot
    exact congrArg (fun b => b.publisher.publicKeys) (hbody.trans hstep)
  exact absurd (List.self_eq_append_right.mp hkeys) (List.cons_ne_nil _ _)

/-! ### What a series leaves in place -/

/-- A descriptor that is there stays the one of its key id. -/
theorem descriptor_signStep {d : Document} (k : KeyPair) {keyId : Text}
    (h : d.Embeds keyId) : (signStep S d k).descriptor keyId = d.descriptor keyId := by
  show (k.signedBody S d.toDocumentBody).descriptor keyId = _
  unfold KeyPair.signedBody
  split
  · rfl
  · rw [DocumentBody.descriptor_embed]
    cases hd : d.descriptor keyId with
    | none => exact absurd h (DocumentBody.descriptor_eq_none.mp hd)
    | some pk => rfl

theorem embeds_signStep {d : Document} {k : KeyPair} {keyId : Text} :
    (signStep S d k).Embeds keyId ↔ d.Embeds keyId ∨ keyId = k.keyId S := by
  show (k.signedBody S d.toDocumentBody).Embeds keyId ↔ _
  unfold KeyPair.signedBody
  split
  · rename_i h
    exact ⟨Or.inl, fun hor => hor.elim id fun heq => heq ▸ h⟩
  · constructor
    · rintro ⟨pk, hpk, rfl⟩
      obtain hold | hnew := List.mem_append.mp hpk
      · exact Or.inl ⟨pk, hold, rfl⟩
      · exact Or.inr (congrArg PublicKey.keyId (List.mem_singleton.mp hnew))
    · rintro (⟨pk, hpk, rfl⟩ | rfl)
      · exact ⟨pk, List.mem_append_left _ hpk, rfl⟩
      · exact ⟨_, List.mem_append_right _ List.mem_cons_self, rfl⟩

/-- A descriptor that carries its key later does so before. -/
theorem honest_of_signStep {d : Document} {k k' : KeyPair}
    (h : (signStep S d k).Honest S k') : d.Honest S k' := by
  intro pk hpk
  have hembeds : d.Embeds (k'.keyId S) := by
    by_contra hnot
    rw [DocumentBody.descriptor_eq_none.mpr hnot] at hpk
    cases hpk
  exact h pk ((descriptor_signStep k hembeds).trans hpk)

theorem honest_of_signAll {ks : List KeyPair} {d : Document} {k : KeyPair}
    (h : (signAll S ks d).Honest S k) : d.Honest S k := by
  unfold signAll at h
  induction ks generalizing d with
  | nil => exact h
  | cons k' ks ih => exact honest_of_signStep (ih h)

/-- **Signers that are all there** keep what is valid and are valid in the end. -/
theorem signAll_of_embeds (hS : S.Correct) {ks : List KeyPair} {d : Document}
    (hdistinct : (ks.map (KeyPair.keyId S)).Nodup)
    (hready : ∀ k ∈ ks, d.Embeds (k.keyId S) ∧ d.Honest S k) :
    Along (signStep S) (KeepsValid S) ks d ∧
      (∀ s, s.keyId ∉ ks.map (KeyPair.keyId S) → d.Bears S s → (signAll S ks d).Bears S s) ∧
      ∀ k ∈ ks, (signAll S ks d).Valid S (k.keyId S) := by
  induction ks generalizing d with
  | nil => exact ⟨trivial, fun _ _ h => h, fun _ hk => nomatch hk⟩
  | cons k ks ih =>
    obtain ⟨hk, hks⟩ := List.forall_mem_cons.mp hready
    obtain ⟨hnot, hdistinct'⟩ := List.nodup_cons.mp hdistinct
    have hbody : (signStep S d k).toDocumentBody = d.toDocumentBody := if_pos hk.1
    have hkeeps := keepsValid_of_embeds hk.1
    obtain ⟨halong, hbears, hvalid⟩ := @ih (signStep S d k) hdistinct' (hbody ▸ hks)
    refine ⟨⟨hkeeps, halong⟩, fun s hs hd => ?_, List.forall_mem_cons.mpr ⟨?_, hvalid⟩⟩
    · rw [List.map_cons, List.mem_cons, not_or] at hs
      exact hbears s hs.2 (hkeeps s hs.1 hd)
    · obtain ⟨s, hs, hid, hverifies⟩ :=
        Document.valid_iff.mp ((k.valid_signManifest hS d).mpr hk.2)
      have hlast := hbears s (hid ▸ hnot) ⟨hs, hverifies⟩
      exact Document.valid_iff.mpr ⟨s, hlast.1, hid, hlast.2⟩

/-- Once something is valid, signers that lose nothing were all there. -/
theorem embeds_of_along {ks : List KeyPair} {d : Document} {s : Signature}
    (hs : d.Bears S s) (hother : s.keyId ∉ ks.map (KeyPair.keyId S))
    (hbind : Along (signStep S) (SignaturesBind S) ks d)
    (hkeeps : Along (signStep S) (KeepsValid S) ks d) : ∀ k ∈ ks, d.Embeds (k.keyId S) := by
  induction ks generalizing d with
  | nil => exact fun _ hk => nomatch hk
  | cons k ks ih =>
    rw [List.map_cons, List.mem_cons, not_or] at hother
    have hembeds := embeds_of_keepsValid hbind.1 hkeeps.1 hs
    have hbody : (signStep S d k).toDocumentBody = d.toDocumentBody := if_pos hembeds
    have hrest := ih (hkeeps.1 s hother.1 hs) hother.2 hbind.2 hkeeps.2
    exact List.forall_mem_cons.mpr ⟨hembeds, hbody ▸ hrest⟩

/-- **When a series of signers works.** Take signers with distinct key ids, where no
signature verifies over two of the documents on the way. In the end all of them are
valid, and none of them invalidated a signature, exactly if each descriptor of a
signer that the manifest has carries its key, it has those of all signers after the
first, and it has that of the first or bears no valid signature. -/
theorem sign_all_valid_iff (hS : S.Correct) {k : KeyPair} {ks : List KeyPair} {d : Document}
    (hdistinct : ((k :: ks).map (KeyPair.keyId S)).Nodup)
    (hbind : Along (signStep S) (SignaturesBind S) (k :: ks) d) :
    ((∀ k' ∈ k :: ks, (signAll S (k :: ks) d).Valid S (k'.keyId S)) ∧
        Along (signStep S) (KeepsValid S) (k :: ks) d) ↔
      (∀ k' ∈ k :: ks, d.Honest S k') ∧ (∀ k' ∈ ks, d.Embeds (k'.keyId S)) ∧
        (d.Embeds (k.keyId S) ∨ (verifyManifest S d).validSignatures = []) := by
  obtain ⟨hnot, hdistinct'⟩ := List.nodup_cons.mp hdistinct
  constructor
  · rintro ⟨hvalid, hkeeps⟩
    have hhonest : ∀ k' ∈ k :: ks, d.Honest S k' :=
      fun k' hk' => honest_of_signAll (hvalid k' hk').honest
    -- the first signer's signature is there for the others to keep
    obtain ⟨s, hs, hid, hverifies⟩ := Document.valid_iff.mp
      ((k.valid_signManifest hS d).mpr (hhonest k List.mem_cons_self))
    have hembeds := embeds_of_along (d := signStep S d k) ⟨hs, hverifies⟩ (hid ▸ hnot)
      hbind.2 hkeeps.2
    refine ⟨hhonest, fun k' hk' => ?_, ?_⟩
    · obtain hd | heq := embeds_signStep.mp (hembeds k' hk')
      · exact hd
      · exact absurd (List.mem_map.mpr ⟨k', hk', heq⟩) hnot
    · by_cases hfirst : d.Embeds (k.keyId S)
      · exact Or.inl hfirst
      · refine Or.inr (validSignatures_eq_nil.mpr fun s hs => hfirst ?_)
        exact embeds_of_keepsValid hbind.1 hkeeps.1 hs
  · rintro ⟨hhonest, hembeds, hfirst⟩
    have hkeeps : KeepsValid S d k := by
      obtain hfirst | hnone := hfirst
      · exact keepsValid_of_embeds hfirst
      · exact fun s _ hs => absurd hs (validSignatures_eq_nil.mp hnone s)
    have hready : ∀ k' ∈ ks, (signStep S d k).Embeds (k'.keyId S) ∧
        (signStep S d k).Honest S k' := by
      intro k' hk'
      refine ⟨embeds_signStep.mpr (Or.inl (hembeds k' hk')), fun pk hpk => ?_⟩
      rw [descriptor_signStep k (hembeds k' hk')] at hpk
      exact hhonest k' (List.mem_cons_of_mem k hk') pk hpk
    obtain ⟨halong, hbears, hvalid⟩ := signAll_of_embeds hS hdistinct' hready
    refine ⟨List.forall_mem_cons.mpr ⟨?_, hvalid⟩, hkeeps, halong⟩
    obtain ⟨s, hs, hid, hverifies⟩ := Document.valid_iff.mp
      ((k.valid_signManifest hS d).mpr (hhonest k List.mem_cons_self))
    have hlast := hbears s (hid ▸ hnot) ⟨hs, hverifies⟩
    exact Document.valid_iff.mpr ⟨s, hlast.1, hid, hlast.2⟩

/-! ## Two signers -/

/-- A manifest nobody has signed, and without any descriptor. -/
def unsignedManifest : Document where
  schemaVersion := SCHEMA_VERSION
  manifestId := "mdl_b3_test".toList
  publisher := ⟨"hf:Qwen/Qwen3-8B-Instruct-GGUF".toList, some "Qwen".toList, []⟩
  model := ⟨"Qwen3 8B Instruct GGUF".toList, none, none, none, some "gguf".toList, none⟩
  license := ⟨"apache-2.0".toList, none, .publicP2pAllowed⟩
  access := ⟨false, true, [.huggingface, .httpsMirror]⟩
  artifacts := [{
    path := "qwen3-8b-instruct-q4_k_m.gguf".toList
    role := "weights".toList
    sizeBytes := 4920000000
    hashes := ⟨List.replicate 64 'a', List.replicate 64 'c', []⟩
    chunking := none
    format := some "gguf".toList
    sources := [.httpsMirror "https://mirror.example/model.gguf".toList .none] }]
  provenance := none
  signatures := []

/-- A first signing key, of the bytes from 0 on; it is a test vector and only used where
examples need keys that differ. -/
def firstSigner : KeyPair :=
  ⟨ofNumber 32 0x000102030405060708090a0b0c0d0e0f101112131415161718191a1b1c1d1e1f⟩

/-- A second one, of the bytes that follow, so that its key and its id are other ones. -/
def secondSigner : KeyPair :=
  ⟨ofNumber 32 0x202122232425262728292a2b2c2d2e2f303132333435363738393a3b3c3d3e3f⟩

/-- The public keys of the two signers, as Ed25519 derives them from their secrets. -/
def signerKeys : List Bytes := [
  ofNumber 32 0x03a107bff3ce10be1d70dd18e74bc09967e4d6309ba50d5f1ddc8664125531b8,
  ofNumber 32 0x29acbae141bccaf0b22e1a94d34d0bc7361e526d0bfe12c89794bc9322966dd7]

/-- A descriptor of a key, under its conventional id. -/
def descriptorOf (key : Bytes) : PublicKey :=
  ⟨keyIdPrefix ++ hexEncode key, .ed25519, hexEncode key, ["manifest-signing".toList]⟩

/-- The manifest with the descriptors of some of the signers, embedded in order, and with no
signatures yet, as it is between two signers. -/
def manifestWith (keys : List Bytes) : Document :=
  ⟨keys.foldl (fun d key => d.embed (descriptorOf key)) unsignedManifest.toDocumentBody, []⟩

/-- The first signer's signature over the manifest with its own descriptor, and both
signers' over the manifest with both. -/
def knownSigners : List KnownSecret := [
  { secret := firstSigner.secret
    key := signerKeys.getD 0 []
    message := (manifestWith (signerKeys.take 1)).canonicalBytes
    sig := ofNumber 64 0xbdbd3eac827e0f69e60f18e66f9c3373a6a887989a8512e0d24704663bdfbaf3bdafe24c8cd8febe050a8a7b46c11392880de811b436b2bfaf053ae2c0d6860b
    value := ("vb0+rIJ+D2nmDxjmb5wzc6aoh5iahRLg0kcEZjvfuvO9r+JMjNj+vgUKintGwROSiA3oEbQ2sr+v" ++
      "BTriwNaGCw==").toList },
  { secret := secondSigner.secret
    key := signerKeys.getD 1 []
    message := (manifestWith signerKeys).canonicalBytes
    sig := ofNumber 64 0xdd6d117e7b6b22b41a480d400697748aa686faff4cd07b2232b3e02b612ea3a540e607c274ef982afb40f90bb5d48eb22bcec58783e31c6882dedc96c70aac0d
    value := ("3W0RfntrIrQaSA1ABpd0iqaG+v9M0HsiMrPgK2Euo6VA5gfCdO+YKvtA+Qu11I6yK87Fh4PjHGiC" ++
      "3tyWxwqsDQ==").toList },
  { secret := firstSigner.secret
    key := signerKeys.getD 0 []
    message := (manifestWith signerKeys).canonicalBytes
    sig := ofNumber 64 0x0ac8158a51d18a50dde0f2fea04e78d3eeb9454261cf31b04f3e2a326665f3ba505874d0665d4aed272890c86e33a0f13592a77c3fbf9e236e1aa92e06399a03
    value := ("CsgVilHRilDd4PL+oE540+65RUJhzzGwTz4qMmZl87pQWHTQZl1K7ScokMhuM6DxNZKnfD+/niNu" ++
      "GqkuBjmaAw==").toList }]

/-- **The second signer invalidates the first.** -/
theorem first_signature_lost :
    let S := SigningScheme.knowing knownSigners
    let signed := signAll S [firstSigner, secondSigner] unsignedManifest
    (firstSigner.signManifest S unsignedManifest).Valid S (firstSigner.keyId S) ∧
      signed.Valid S (secondSigner.keyId S) ∧ ¬ signed.Valid S (firstSigner.keyId S) := by
  decide +kernel

/-- A signer whose descriptor is there leaves nothing to bind. -/
theorem signaturesBind_of_embeds {d : Document} {k : KeyPair} (h : d.Embeds (k.keyId S)) :
    SignaturesBind S d k :=
  fun _ _ _ _ _ => (Document.canonicalBytes_inj.mpr
    (show (signStep S d k).toDocumentBody = d.toDocumentBody from if_pos h)).symm

/-- With both descriptors embedded beforehand, both signatures are valid. -/
theorem both_signatures_valid :
    (signAll (.knowing knownSigners) [firstSigner, secondSigner] (manifestWith signerKeys)).Valid
        (.knowing knownSigners) (firstSigner.keyId (.knowing knownSigners)) ∧
      (signAll (.knowing knownSigners) [firstSigner, secondSigner]
        (manifestWith signerKeys)).Valid (.knowing knownSigners)
          (secondSigner.keyId (.knowing knownSigners)) := by
  have hcorrect := SigningScheme.knowing_correct
    (show KnownSecret.Consistent knownSigners by decide +kernel)
  have hdistinct : ([firstSigner, secondSigner].map
      (KeyPair.keyId (.knowing knownSigners))).Nodup := by
    decide +kernel
  have hbind : Along (signStep (.knowing knownSigners)) (SignaturesBind (.knowing knownSigners))
      [firstSigner, secondSigner] (manifestWith signerKeys) :=
    ⟨signaturesBind_of_embeds (by decide +kernel), signaturesBind_of_embeds (by decide +kernel),
      trivial⟩
  have hvalid := ((sign_all_valid_iff hcorrect hdistinct hbind).mpr (by decide +kernel)).1
  exact ⟨hvalid firstSigner List.mem_cons_self,
    hvalid secondSigner (List.mem_cons_of_mem _ List.mem_cons_self)⟩

end Atlas
