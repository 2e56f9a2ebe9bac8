import Atlas.JsonRoundTrip
import Atlas.Base64Url
import Atlas.ContentManifest

/-!
# Share links and bundles

A share link is a target written as JSON, in base64, after a prefix. A bundle is a name
and a list of targets, written the same way after another prefix. Both decoders bring the
digests of what they read to one form and drop what has no content id; a link's decoder
also gives a name to a target that has none.

What is written is read back (`ShareTarget.decode_encode`). Decoding a bundle is decoding
its files one by one, except that a file without a name is not given one
(`share_links_agree_iff`).
-/

open Text Json

namespace Atlas

/-! ## The documents -/

namespace ShareTarget

/-- How a target is written. The fields a link had first are always there; the others
only when they are not empty. -/
def codec : Codec ShareTarget :=
  .object <| Record.iso
    (.cons (.defaulted "n".toList .text [])
      (.cons (.defaulted "sz".toList u64 0)
        (.cons (.defaulted "s".toList .text [])
          (.cons (.defaulted "b3".toList .text [])
            (.cons (.defaulted "l".toList .text [])
              (.cons (.skipped "t".toList .text [])
                (.cons (.skipped "f".toList .text [])
                  (.cons (.skipped "q".toList .text [])
                    (.cons (.skipped "d".toList .text [])
                      (.cons (.skipped "o".toList .text [])
                        (.single (.skipped "mag".toList .text []))
                        (by decide)) (by decide)) (by decide)) (by decide)) (by decide))
              (by decide)) (by decide)) (by decide)) (by decide)) (by decide))
    { toFun := fun (name, size, sha256, blake3, license, title, family, quant, desc, origin,
          magnet) =>
        ⟨name, size, sha256, blake3, license, title, family, quant, desc, origin, magnet⟩
      invFun := fun t => (t.name, t.size, t.sha256, t.blake3, t.license, t.title, t.family,
        t.quant, t.desc, t.origin, t.magnet)
      left_inv := fun _ => rfl
      right_inv := fun _ => rfl }

end ShareTarget

/-- A whole sharded model shared under one link, each of its files with its own digest. -/
structure ShareBundle where
  /-- Display name for the whole model. -/
  name : Text
  /-- The files that make up the model. -/
  files : List ShareTarget
  deriving DecidableEq, Repr

/-- A bundle in its short form: the name under `n`, the files under `fs`, both of which may
be absent. -/
def ShareBundle.codec : Codec ShareBundle :=
  .object <| Record.iso
    (.cons (.defaulted "n".toList .text [])
      (.single (.defaulted "fs".toList (.list ShareTarget.codec) [])) (by decide))
    { toFun := fun (name, files) => ⟨name, files⟩
      invFun := fun b => (b.name, b.files)
      left_inv := fun _ => rfl
      right_inv := fun _ => rfl }

/-! ## What is written is read back -/

section RoundTrips

open Json.Codec Json.Member Json.Record

/-- A text that is always written. -/
theorem defaultedText_roundTrips (name : Text) : (defaulted name Codec.text []).RoundTrips :=
  defaulted_roundTrips name text_roundTrips ⟨str [], rfl⟩

/-- A text that is written when it is not empty. -/
theorem skippedText_roundTrips (name : Text) : (skipped name Codec.text []).RoundTrips :=
  skipped_roundTrips name text_roundTrips

theorem ShareTarget.codec_roundTrips : ShareTarget.codec.RoundTrips :=
  object_roundTrips (.iso
    (.cons (defaultedText_roundTrips _)
      (.cons (defaulted_roundTrips _ (unsigned_roundTrips _)
          ⟨num (ofNat 0), natOf_ofNat (Nat.two_pow_pos 64)⟩)
        (.cons (defaultedText_roundTrips _)
          (.cons (defaultedText_roundTrips _)
            (.cons (defaultedText_roundTrips _)
              (.cons (skippedText_roundTrips _)
                (.cons (skippedText_roundTrips _)
                  (.cons (skippedText_roundTrips _)
                    (.cons (skippedText_roundTrips _)
                      (.cons (skippedText_roundTrips _)
                        (single_roundTrips (skippedText_roundTrips _))))))))))))
    _)

theorem ShareBundle.codec_roundTrips : ShareBundle.codec.RoundTrips :=
  object_roundTrips (.iso
    (.cons (defaultedText_roundTrips _)
      (single_roundTrips
        (defaulted_roundTrips _ (.list ShareTarget.codec_roundTrips) ⟨arr [], rfl⟩)))
    _)

/-- A target is read of the list of its values. -/
theorem ShareTarget.decode_values {t : ShareTarget} (hsize : t.size < 2 ^ 64) :
    ShareTarget.codec.decode (arr [str t.name, num (ofNat t.size), str t.sha256, str t.blake3,
      str t.license, str t.title, str t.family, str t.quant, str t.desc, str t.origin,
      str t.magnet]) = some t := by
  have hread : u64.decode (num (ofNat t.size)) = some t.size := natOf_ofNat hsize
  simp only [ShareTarget.codec, Codec.object, Record.iso, Record.cons, Record.append,
    Record.single, Member.defaulted, Member.skipped, Codec.text, hread, Option.map_some,
    Option.bind_some]
  rfl

/-- **A target is read back from what is written of it.** -/
theorem ShareTarget.decode_encode_codec {t : ShareTarget} (hsize : t.size < 2 ^ 64) :
    ShareTarget.codec.decode (ShareTarget.codec.encode t) = some t :=
  codec_roundTrips _ t (decode_values hsize) false

/-- **A bundle is read back from what is written of it.** -/
theorem ShareBundle.decode_encode_codec {b : ShareBundle}
    (hsize : ∀ f ∈ b.files, f.size < 2 ^ 64) :
    ShareBundle.codec.decode (ShareBundle.codec.encode b) = some b := by
  have hfiles : (Codec.list ShareTarget.codec).decode
      (arr (b.files.map ShareTarget.codec.encode)) = some b.files := by
    have hmap := mapM_decode (c := ShareTarget.codec) (b := false) fun f hf =>
      ShareTarget.decode_encode_codec (hsize f hf)
    rw [show ((b.files.map ShareTarget.codec.encode).map (form false)) =
      b.files.map ShareTarget.codec.encode from List.map_id _] at hmap
    exact hmap
  have hvalues : ShareBundle.codec.decode
      (arr [str b.name, arr (b.files.map ShareTarget.codec.encode)]) = some b := by
    simp only [ShareBundle.codec, Codec.object, Record.iso, Record.cons, Record.append,
      Record.single, Member.defaulted, Codec.text, hfiles, Option.map_some, Option.bind_some]
    rfl
  exact codec_roundTrips _ b hvalues false

end RoundTrips

/-! ## Links -/

/-- The libraries links are read with: lower case, JSON, and base64. -/
structure LinkLibs where
  /-- The table of lower case. -/
  lower : Text → Char → Text → Text
  /-- Read a JSON document. -/
  parse : Bytes → Except Text Json.Tree
  /-- What is said of a document of the wrong shape. -/
  shape : Json.Tree → Text
  /-- What is said of a text that is not base64. -/
  notBase64 : Text → Text

namespace LinkLibs

/-- Decoding the text of a link, with the error of the library where it is not base64. -/
def b64 (L : LinkLibs) (s : Text) : Except Text Bytes :=
  match Base64Url.decode s with
  | some bytes => .ok bytes
  | none => .error (L.notBase64 s)

/-- Reading a value from the JSON in some bytes, with the error of the library where it has
no such shape. -/
def fromSlice (L : LinkLibs) {α : Type} (c : Codec α) (bytes : Bytes) : Except Text α :=
  match L.parse bytes with
  | .error e => .error e
  | .ok j => match c.decode j with
    | some a => .ok a
    | none => .error (L.shape j)

/-- What is written of a document is read as that document, which is the only thing the link
codecs assume of the parser. -/
def Reads (L : LinkLibs) (j : Json.Tree) : Prop := L.parse j.toVec = .ok j

/-- Lower case is that of ASCII for a character of ASCII, as the real table has it; other
characters may be mapped in any way. -/
def LowersAscii (L : LinkLibs) : Prop :=
  ∀ before c rest, c.toNat < 128 → L.lower before c rest = [c.toLower]

end LinkLibs

namespace ShareTarget

/-- The object that is put into a link for one file, its members named as the source names them. -/
def json (t : ShareTarget) : Json.Tree := codec.encode t

/-- Encode as a token: the prefix, and the object's text in URL-safe base64. -/
def encode (t : ShareTarget) : Text := "atlas1:".toList ++ Base64Url.encode t.json.toVec

/-- Decode a token with given libraries, which say what is wrong with a malformed one. -/
def decodeWith (L : LinkLibs) (token : Text) : Except Error ShareTarget :=
  decode L.lower L.b64 (L.fromSlice codec) token

end ShareTarget

namespace ShareBundle

/-- The object that is put into a link for a whole model. -/
def json (b : ShareBundle) : Json.Tree := codec.encode b

/-- At least one file has a usable content id: a SHA-256 or a BLAKE3 by which somebody could
ask for it. -/
def isUsable (b : ShareBundle) : Bool := b.files.any ShareTarget.hasContentId

/-- Encode as a token: the bundle's own prefix, and the object's text in URL-safe base64. -/
def encode (b : ShareBundle) : Text := "atlasb1:".toList ++ Base64Url.encode b.json.toVec

/-- Bring the digests of a file to one form: without blanks around them and in lower case,
as links are compared. -/
def normalize (L : LinkLibs) (f : ShareTarget) : ShareTarget :=
  { f with
    sha256 := toLowercase L.lower (trim f.sha256)
    blake3 := toLowercase L.lower (trim f.blake3) }

/-- Parse a bundle token; files without a usable content id are left out, and a bundle that
has none left is an error. -/
def decode (L : LinkLibs) (token : Text) : Except Error ShareBundle :=
  let t := trim token
  if "atlasb1:".toList.isPrefixOf t then
    match L.b64 (trim (t.drop 8)) with
    | .error e => .error (.other ("invalid bundle link: ".toList ++ e))
    | .ok bytes =>
      match L.fromSlice codec bytes with
      | .error e => .error (.other ("invalid bundle link: ".toList ++ e))
      | .ok bundle =>
        let bundle := { bundle with
          files := (bundle.files.map (normalize L)).filter ShareTarget.hasContentId }
        if !bundle.isUsable then .error (.other "bundle link has no usable files".toList)
        else .ok bundle
  else .error (.other "not an Atlas bundle link".toList)

end ShareBundle

variable {L : LinkLibs}

theorem b64_encode (bytes : Bytes) : L.b64 (Base64Url.encode bytes) = .ok bytes := by
  unfold LinkLibs.b64
  rw [Base64Url.decode_encode]

/-- A document that is read of what was written. -/
theorem fromSlice_toVec {α : Type} {c : Codec α} {a : α} (hread : L.Reads (c.encode a))
    (hback : c.decode (c.encode a) = some a) :
    L.fromSlice c (c.encode a).toVec = .ok a := by
  unfold LinkLibs.fromSlice
  rw [show L.parse (c.encode a).toVec = .ok (c.encode a) from hread]
  dsimp only
  rw [hback]

/-- A token is its own trimmed form. -/
theorem trim_token {head : Text} (hhead : ∀ c ∈ head, isWhitespace c = false) (bytes : Bytes) :
    trim (head ++ Base64Url.encode bytes) = head ++ Base64Url.encode bytes :=
  trim_eq_self fun c hc => (List.mem_append.mp hc).elim (hhead c)
    (Base64Url.isWhitespace_encode bytes c)

theorem trim_encode (bytes : Bytes) :
    trim (Base64Url.encode bytes) = Base64Url.encode bytes :=
  trim_eq_self (Base64Url.isWhitespace_encode bytes)

/-- **What decoding does to a target that was encoded**: it brings the digests to one
form, asks for a content id, and gives a name to a target that has none. -/
theorem ShareTarget.decode_encode {t : ShareTarget} (hread : L.Reads t.json)
    (hsize : t.size < 2 ^ 64) :
    ShareTarget.decodeWith L t.encode =
      if !(ShareBundle.normalize L t).hasContentId then
        .error (.other "share link has no usable content id".toList)
      else if (trim t.name).isEmpty then
        .ok { ShareBundle.normalize L t with name := "shared-model.gguf".toList }
      else .ok (ShareBundle.normalize L t) := by
  unfold decodeWith decode encode
  rw [trim_token (forall_mem_of_all (by decide))]
  dsimp only
  rw [if_pos (List.isPrefixOf_iff_prefix.mpr (List.prefix_append _ _)),
    show ("atlas1:".toList ++ Base64Url.encode t.json.toVec).drop 7 =
      Base64Url.encode t.json.toVec from rfl, trim_encode, b64_encode]
  dsimp only
  rw [show L.fromSlice codec t.json.toVec = .ok t from
    fromSlice_toVec hread (decode_encode_codec hsize)]
  rfl

/-- What decoding does to a bundle that was encoded. -/
theorem ShareBundle.decode_encode {b : ShareBundle} (hread : L.Reads b.json)
    (hsize : ∀ f ∈ b.files, f.size < 2 ^ 64) :
    ShareBundle.decode L b.encode =
      let files := (b.files.map (normalize L)).filter ShareTarget.hasContentId
      if !files.any ShareTarget.hasContentId then
        .error (.other "bundle link has no usable files".toList)
      else .ok ⟨b.name, files⟩ := by
  unfold decode encode
  rw [trim_token (forall_mem_of_all (by decide))]
  dsimp only
  rw [if_pos (List.isPrefixOf_iff_prefix.mpr (List.prefix_append _ _)),
    show ("atlasb1:".toList ++ Base64Url.encode b.json.toVec).drop 8 =
      Base64Url.encode b.json.toVec from rfl, trim_encode, b64_encode]
  dsimp only
  rw [show L.fromSlice codec b.json.toVec = .ok b from
    fromSlice_toVec hread (decode_encode_codec hsize)]
  rfl

/-! ## A target round trips -/

/-- A digest in its one form: none, or 64 hexadecimal digits in lower case. -/
def CanonicalDigest (s : Text) : Prop :=
  s = [] ∨ ShareTarget.isHex64 s = true ∧ s.toAsciiLowercase = s

theorem isAsciiHexdigit_lt {c : Char} (h : isAsciiHexdigit c = true) :
    c.toNat < 128 ∧ isWhitespace c = false := by
  have hrange : (48 ≤ c.toNat ∧ c.toNat ≤ 57) ∨ (97 ≤ c.toNat ∧ c.toNat ≤ 102) ∨
      (65 ≤ c.toNat ∧ c.toNat ≤ 70) := by
    unfold isAsciiHexdigit at h
    simp only [Bool.or_eq_true, Bool.and_eq_true, decide_eq_true_eq] at h
    rcases h with (⟨hlow, hhigh⟩ | ⟨hlow, hhigh⟩) | ⟨hlow, hhigh⟩
    · exact Or.inl ⟨UInt32.le_iff_toNat_le.mp hlow, UInt32.le_iff_toNat_le.mp hhigh⟩
    · exact Or.inr (Or.inl ⟨UInt32.le_iff_toNat_le.mp hlow, UInt32.le_iff_toNat_le.mp hhigh⟩)
    · exact Or.inr (Or.inr ⟨UInt32.le_iff_toNat_le.mp hlow, UInt32.le_iff_toNat_le.mp hhigh⟩)
  have hwhite : ∀ c : Char, c.toNat < 103 → 48 ≤ c.toNat → isWhitespace c = false :=
    forall_char_lt (by decide)
  exact ⟨by omega, hwhite c (by omega) (by omega)⟩

/-- Lower case is that of ASCII for a text of ASCII. -/
theorem toLowercase_ascii (hlower : L.LowersAscii) {s : Text} (hs : ∀ c ∈ s, c.toNat < 128) :
    toLowercase L.lower s = s.toAsciiLowercase := by
  unfold toLowercase
  generalize ([] : Text) = before
  induction s generalizing before with
  | nil => rfl
  | cons c s ih =>
    show L.lower before c s ++ lowercaseAfter L.lower (before ++ [c]) s = _
    rw [hlower before c s (hs c List.mem_cons_self),
      ih (fun c' hc' => hs c' (List.mem_cons_of_mem c hc'))]
    rfl

/-- A digest in its one form is left as it is. -/
theorem CanonicalDigest.normalized (hlower : L.LowersAscii) {s : Text}
    (h : CanonicalDigest s) : toLowercase L.lower (trim s) = s := by
  obtain rfl | ⟨hhex, hfolded⟩ := h
  · rfl
  · have hdigits : ∀ c ∈ s, isAsciiHexdigit c = true :=
      List.all_eq_true.mp (Bool.and_eq_true_iff.mp hhex).2
    rw [trim_eq_self fun c hc => (isAsciiHexdigit_lt (hdigits c hc)).2,
      toLowercase_ascii hlower fun c hc => (isAsciiHexdigit_lt (hdigits c hc)).1, hfolded]

/-- A target that a link is made of: its digests are in their one form and one of them is
a content id, and it has a name. -/
structure ShareTarget.Proper (t : ShareTarget) : Prop where
  size : t.size < 2 ^ 64
  sha256 : CanonicalDigest t.sha256
  blake3 : CanonicalDigest t.blake3
  usable : t.hasContentId = true
  named : trim t.name ≠ []

/-- **A share link is read back as the target it was made of.** -/
theorem ShareTarget.Proper.roundTrips {t : ShareTarget} (ht : t.Proper)
    (hlower : L.LowersAscii) (hread : L.Reads t.json) :
    ShareTarget.decodeWith L t.encode = .ok t := by
  have hnormal : ShareBundle.normalize L t = t := by
    unfold ShareBundle.normalize
    rw [ht.sha256.normalized hlower, ht.blake3.normalized hlower]
  have hname : (trim t.name).isEmpty = false := by
    rw [List.isEmpty_eq_false_iff]
    exact ht.named
  rw [ShareTarget.decode_encode hread ht.size, hnormal, ht.usable, hname]
  rfl

/-! ## A bundle and its files -/

namespace ShareBundle

/-- The files of a bundle that are accepted when each is shared alone, as they are accepted. -/
def alone (L : LinkLibs) (b : ShareBundle) : List ShareTarget :=
  b.files.filterMap fun f => (ShareTarget.decodeWith L f.encode).toOption

/-- Sharing files in a bundle is sharing each of them alone: the bundle has the name it
was given and the files that are accepted alone, in order; it is rejected only when none
of them is. -/
structure Agrees (L : LinkLibs) (b : ShareBundle) : Prop where
  accepted : ∀ b', decode L b.encode = .ok b' → b' = ⟨b.name, b.alone L⟩
  rejected : ∀ e, decode L b.encode = .error e → b.alone L = []

/-- Give a name to a target that has none; any other name is kept as it is, blanks included. -/
def giveName (t : ShareTarget) : ShareTarget :=
  if (trim t.name).isEmpty then { t with name := "shared-model.gguf".toList } else t

theorem giveName_eq_self {t : ShareTarget} : giveName t = t ↔ trim t.name ≠ [] := by
  unfold giveName
  cases hname : (trim t.name).isEmpty with
  | false =>
    rw [List.isEmpty_eq_false_iff] at hname
    exact ⟨fun _ => hname, fun _ => rfl⟩
  | true =>
    rw [List.isEmpty_iff] at hname
    refine ⟨fun h => ?_, fun h => absurd hname h⟩
    have hgiven : "shared-model.gguf".toList = t.name := congrArg ShareTarget.name h
    rw [← hgiven] at hname
    cases hname

/-- **Alone, a file is also given a name.** -/
theorem alone_eq {b : ShareBundle} (hread : ∀ f ∈ b.files, L.Reads f.json)
    (hsize : ∀ f ∈ b.files, f.size < 2 ^ 64) :
    b.alone L =
      ((b.files.map (normalize L)).filter ShareTarget.hasContentId).map giveName := by
  unfold alone
  rw [List.filter_map, List.map_map, ← List.filterMap_eq_map, List.filterMap_filter]
  refine List.filterMap_congr fun f hf => ?_
  rw [ShareTarget.decode_encode (hread f hf) (hsize f hf)]
  show _ = if (normalize L f).hasContentId then some (giveName (normalize L f)) else none
  cases (normalize L f).hasContentId with
  | false => rfl
  | true =>
    show Except.toOption (if (trim f.name).isEmpty then _ else _) =
      some (if (trim f.name).isEmpty then _ else _)
    cases (trim f.name).isEmpty with
    | false => rfl
    | true => rfl

/-- **A bundle agrees with its files** exactly when none that is accepted lacks a name. -/
theorem agrees_iff {b : ShareBundle} (hbundle : L.Reads b.json)
    (hread : ∀ f ∈ b.files, L.Reads f.json) (hsize : ∀ f ∈ b.files, f.size < 2 ^ 64) :
    b.Agrees L ↔
      ∀ f ∈ b.files, (normalize L f).hasContentId = true → trim f.name ≠ [] := by
  have hnamed : (∀ f ∈ b.files, (normalize L f).hasContentId = true → trim f.name ≠ []) ↔
      ∀ t ∈ (b.files.map (normalize L)).filter ShareTarget.hasContentId, giveName t = t := by
    constructor
    · intro h t ht
      obtain ⟨hmem, hid⟩ := List.mem_filter.mp ht
      obtain ⟨f, hf, rfl⟩ := List.mem_map.mp hmem
      exact giveName_eq_self.mpr (h f hf hid)
    · intro h f hf hid
      have hmem : normalize L f ∈
          (b.files.map (normalize L)).filter ShareTarget.hasContentId :=
        List.mem_filter.mpr ⟨List.mem_map_of_mem hf, hid⟩
      exact (giveName_eq_self (t := normalize L f)).mp (h (normalize L f) hmem)
  have hid : ∀ t ∈ (b.files.map (normalize L)).filter ShareTarget.hasContentId,
      t.hasContentId = true := fun t ht => (List.mem_filter.mp ht).2
  rw [hnamed]
  have hdecode := decode_encode hbundle hsize
  have halone := alone_eq hread hsize
  generalize (b.files.map (normalize L)).filter ShareTarget.hasContentId = files
    at hdecode halone hid
  dsimp only at hdecode
  cases files with
  | nil =>
    refine ⟨fun _ t ht => (nomatch ht), fun _ => ⟨fun b' hb' => ?_, fun _ _ => halone⟩⟩
    cases hdecode.symm.trans hb'
  | cons t ts =>
    rw [List.any_cons, hid t List.mem_cons_self] at hdecode
    change decode L b.encode = .ok ⟨b.name, t :: ts⟩ at hdecode
    have hmap : (t :: ts).map giveName = (t :: ts).map id ↔
        ∀ t' ∈ t :: ts, giveName t' = t' := List.map_inj_left
    rw [List.map_id] at hmap
    rw [← hmap, ← halone]
    constructor
    · intro h
      have hfiles := congrArg files (h.accepted _ hdecode)
      exact hfiles.symm
    · intro h
      refine ⟨fun b' hb' => ?_, fun e he => ?_⟩
      · cases hdecode.symm.trans hb'
        rw [h]
      · cases hdecode.symm.trans he

end ShareBundle

/-- **Share links round trip, and bundles agree with them except for files without a
name.** A target with its digests in their one form, a content id and a name is read back
as it was. And a bundle of any targets is its files as they are accepted alone exactly
when every file of it that has a content id has a name. -/
theorem share_links_agree_iff (hlower : L.LowersAscii) :
    (∀ t : ShareTarget, t.Proper → L.Reads t.json →
      ShareTarget.decodeWith L t.encode = .ok t) ∧
    ∀ b : ShareBundle, L.Reads b.json → (∀ f ∈ b.files, L.Reads f.json) →
      (∀ f ∈ b.files, f.size < 2 ^ 64) →
      (b.Agrees L ↔ ∀ f ∈ b.files,
        (ShareBundle.normalize L f).hasContentId = true → trim f.name ≠ []) :=
  ⟨fun _ ht => ht.roundTrips hlower, fun _ => ShareBundle.agrees_iff⟩

/-! ## A bundle with a file without a name -/

/-- A file of a bundle, without a content id if that is empty. -/
def bundleFile (name sha256 : Text) : ShareTarget :=
  { ShareTarget.ofSha256 sha256 with name := name, size := 700 }

theorem bundleFile_size (name sha256 : Text) : (bundleFile name sha256).size < 2 ^ 64 := by
  show 700 < 2 ^ 64
  exact Nat.lt_of_lt_of_le (by decide : 700 < 2 ^ 10)
    (Nat.pow_le_pow_right (by decide) (by decide))

/-- Two shards, of which one has its digest in upper case, and a file that cannot be verified. -/
def shardBundle : ShareBundle where
  name := "Llama-3.1-70B-Instruct".toList
  files := [bundleFile "model-00001-of-00002.gguf".toList (List.replicate 64 'a'),
    bundleFile "model-00002-of-00002.gguf".toList (List.replicate 64 'B'),
    bundleFile "readme.md".toList []]

/-- One file, without a name, which a decoder would have to name itself. -/
def namelessBundle : ShareBundle where
  name := "Llama-3.1-70B-Instruct".toList
  files := [bundleFile [] (List.replicate 64 'a')]

/-- The documents of some bundles and of their files, to which the assumption about the
parser is restricted. -/
def linkDocuments (bundles : List ShareBundle) : List Json.Tree :=
  bundles.map ShareBundle.json ++ (bundles.flatMap ShareBundle.files).map ShareTarget.json

theorem bundle_mem {bundles : List ShareBundle} {b : ShareBundle} (hb : b ∈ bundles) :
    b.json ∈ linkDocuments bundles :=
  List.mem_append_left _ (List.mem_map_of_mem hb)

theorem file_mem {bundles : List ShareBundle} {b : ShareBundle} (hb : b ∈ bundles)
    {f : ShareTarget} (hf : f ∈ b.files) : f.json ∈ linkDocuments bundles :=
  List.mem_append_right _ (List.mem_map_of_mem (List.mem_flatMap.mpr ⟨b, hb, hf⟩))

/-- Libraries that read the documents of the two bundles and of their files. -/
def sampleLinkLibs : LinkLibs where
  lower _ c _ := [c.toLower]
  parse bytes :=
    match (linkDocuments [shardBundle, namelessBundle]).find? fun j => j.toVec = bytes with
    | some j => .ok j
    | none => .error "expected value at line 1 column 1".toList
  shape _ := "invalid type".toList
  notBase64 _ := "Invalid padding".toList

/-- The documents are read. -/
theorem sampleLinkLibs_reads {j : Json.Tree}
    (hj : j ∈ linkDocuments [shardBundle, namelessBundle]) : sampleLinkLibs.Reads j := by
  have hsome : ((linkDocuments [shardBundle, namelessBundle]).find?
      fun j' => j'.toVec = j.toVec).isSome = true :=
    List.find?_isSome.mpr ⟨j, hj, decide_eq_true rfl⟩
  obtain ⟨j', hj'⟩ := Option.isSome_iff_exists.mp hsome
  have hfound : decide (j'.toVec = j.toVec) = true :=
    List.find?_some (p := fun j' : Json.Tree => decide (j'.toVec = j.toVec)) hj'
  have hsame : j' = j := toVec_injective (of_decide_eq_true hfound)
  show (match (linkDocuments [shardBundle, namelessBundle]).find? _ with
    | some j => Except.ok j
    | none => _) = Except.ok j
  rw [hj', hsame]

/-- The bundle of the shards agrees with its files, and the first of them is read back
from its own link. -/
theorem shardBundle_agrees :
    shardBundle.Agrees sampleLinkLibs ∧
      ShareTarget.decodeWith sampleLinkLibs
          (bundleFile "model-00001-of-00002.gguf".toList (List.replicate 64 'a')).encode =
        .ok (bundleFile "model-00001-of-00002.gguf".toList (List.replicate 64 'a')) := by
  have hlower : sampleLinkLibs.LowersAscii := fun _ _ _ _ => rfl
  have hmem : shardBundle ∈ [shardBundle, namelessBundle] := List.mem_cons_self
  obtain ⟨hlink, hbundle⟩ := share_links_agree_iff hlower
  have hsize : ∀ f ∈ shardBundle.files, f.size < 2 ^ 64 :=
    List.forall_mem_cons.mpr ⟨bundleFile_size _ _, List.forall_mem_cons.mpr
      ⟨bundleFile_size _ _, List.forall_mem_cons.mpr ⟨bundleFile_size _ _, List.forall_mem_nil _⟩⟩⟩
  have hagrees := hbundle shardBundle (sampleLinkLibs_reads (bundle_mem hmem))
    (fun f hf => sampleLinkLibs_reads (file_mem hmem hf)) hsize
  refine ⟨hagrees.mpr ?_, ?_⟩
  · decide +kernel
  · exact hlink _ ⟨bundleFile_size _ _, Or.inr ⟨by decide +kernel, by decide +kernel⟩,
        Or.inl rfl, by decide +kernel, by decide⟩
      (sampleLinkLibs_reads (file_mem hmem List.mem_cons_self))

/-- **A file without a name is given one alone and none in a bundle.** -/
theorem namelessBundle_disagrees :
    (∀ f ∈ namelessBundle.files, CanonicalDigest f.sha256 ∧ CanonicalDigest f.blake3) ∧
      ¬ namelessBundle.Agrees sampleLinkLibs := by
  have hmem : namelessBundle ∈ [shardBundle, namelessBundle] :=
    List.mem_cons_of_mem _ List.mem_cons_self
  refine ⟨fun f hf => ?_, fun h => ?_⟩
  · rw [List.mem_singleton.mp hf]
    exact ⟨Or.inr ⟨by decide +kernel, by decide +kernel⟩, Or.inl rfl⟩
  · have hnamed := (ShareBundle.agrees_iff
      (sampleLinkLibs_reads (bundle_mem hmem))
      (fun f hf => sampleLinkLibs_reads (file_mem hmem hf))
      (List.forall_mem_cons.mpr ⟨bundleFile_size _ _, List.forall_mem_nil _⟩)).mp h
    exact hnamed _ List.mem_cons_self (by decide +kernel) rfl

end Atlas
