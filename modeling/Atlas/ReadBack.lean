import Atlas.Document
import Atlas.JsonRoundTrip

/-!
# A manifest is read back

A registry and a cache keep manifests as files, written by the writer derived for the
type and read by the reader derived for it. `Document.fromJson_encode` says that a
manifest that was read once is read back from what is written of it, whatever of the
document it came from was dropped, renamed or filled in.
-/

namespace Atlas

open Json Json.Codec Json.Member Json.Record

theorem text_ne_null (s : Text) (b : Bool) : (Codec.text.encode s).form b ≠ null := by
  rw [show (Codec.text.encode s).form b = str s from form_str b s]
  nofun

theorem boolean_ne_null (v b : Bool) : (boolean.encode v).form b ≠ null := by
  rw [show (boolean.encode v).form b = bool v from form_bool b v]
  nofun

/-- A text that may be missing. -/
theorem optionalText_roundTrips (name : Text) : (optional name Codec.text).RoundTrips :=
  optional_roundTrips name text_roundTrips text_ne_null

/-- A text that has to be there. -/
theorem requiredText_roundTrips (name : Text) : (required name Codec.text).RoundTrips :=
  required_roundTrips name text_roundTrips

theorem PublicKey.codec_roundTrips : PublicKey.codec.RoundTrips :=
  object_roundTrips (.iso
    (.cons (requiredText_roundTrips _)
      (.cons (required_roundTrips _ choice_roundTrips)
        (.cons (requiredText_roundTrips _)
          (single_roundTrips
            (defaulted_roundTrips _ (.list text_roundTrips) ⟨arr [], rfl⟩)))))
    _)

theorem Publisher.codec_roundTrips : Publisher.codec.RoundTrips :=
  object_roundTrips (.iso
    (.cons (requiredText_roundTrips _)
      (.cons (optionalText_roundTrips _)
        (single_roundTrips
          (defaulted_roundTrips _ (.list PublicKey.codec_roundTrips) ⟨arr [], rfl⟩))))
    _)

theorem Model.codec_roundTrips : Model.codec.RoundTrips :=
  object_roundTrips (.iso
    (.cons (requiredText_roundTrips _)
      (.cons (optionalText_roundTrips _)
        (.cons (optionalText_roundTrips _)
          (.cons (optionalText_roundTrips _)
            (.cons (optionalText_roundTrips _)
              (single_roundTrips (optionalText_roundTrips _)))))))
    _)

theorem License.codec_roundTrips : License.codec.RoundTrips :=
  object_roundTrips (.iso
    (.cons (requiredText_roundTrips _)
      (.cons (optionalText_roundTrips _)
        (single_roundTrips (required_roundTrips _ choice_roundTrips))))
    _)

theorem Access.codec_roundTrips : Access.codec.RoundTrips :=
  object_roundTrips (.iso
    (.cons (defaulted_roundTrips _ boolean_roundTrips ⟨bool false, rfl⟩)
      (.cons (defaulted_roundTrips _ boolean_roundTrips ⟨bool true, rfl⟩)
        (single_roundTrips
          (defaulted_roundTrips _ (.lenient choice_roundTrips) ⟨arr [], rfl⟩))))
    _)

theorem Hashes.codec_roundTrips : Hashes.codec.RoundTrips :=
  object_roundTrips (.iso
    (.cons (requiredText_roundTrips _)
      (.cons (requiredText_roundTrips _)
        (single_roundTrips (skipped_roundTrips _ text_roundTrips))))
    _)

theorem Chunking.codec_roundTrips : Chunking.codec.RoundTrips :=
  object_roundTrips (.iso
    (.cons (required_roundTrips _ (unsigned_roundTrips _))
      (single_roundTrips (requiredText_roundTrips _)))
    _)

theorem authField_roundTrips : authField.RoundTrips :=
  defaulted_roundTrips _ choice_roundTrips ⟨str "none".toList, rfl⟩

theorem SourceClass.record_roundTrips (c : SourceClass) : c.record.RoundTrips := by
  have hauth := single_roundTrips authField_roundTrips
  unfold SourceClass.record
  cases c with
  | huggingface =>
    exact .cons (requiredText_roundTrips _)
      (.cons (requiredText_roundTrips _) (.cons (requiredText_roundTrips _) hauth))
  | httpsMirror => exact .cons (requiredText_roundTrips _) hauth
  | iroh =>
    exact .cons (requiredText_roundTrips _)
      (.cons (defaulted_roundTrips _ (.list text_roundTrips) ⟨arr [], rfl⟩) hauth)
  | bittorrentV2 =>
    exact .cons (requiredText_roundTrips _) (.cons (optionalText_roundTrips _) hauth)
  | lanPeer => exact .cons (requiredText_roundTrips _) hauth
  | localFile => exact single_roundTrips (requiredText_roundTrips _)

theorem Source.codec_roundTrips : Source.codec.RoundTrips :=
  .iso (tagged_roundTrips SourceClass.record_roundTrips) _

theorem DocumentArtifact.codec_roundTrips : DocumentArtifact.codec.RoundTrips :=
  object_roundTrips (.iso
    (.cons (requiredText_roundTrips _)
      (.cons (requiredText_roundTrips _)
        (.cons (required_roundTrips _ (unsigned_roundTrips _))
          (.cons (required_roundTrips _ Hashes.codec_roundTrips)
            (.cons (optional_roundTrips _ Chunking.codec_roundTrips (object_ne_null _))
              (.cons (optionalText_roundTrips _)
                (single_roundTrips
                  (defaulted_roundTrips _ (.lenient Source.codec_roundTrips)
                    ⟨arr [], rfl⟩))))))))
    _)

theorem Provenance.codec_roundTrips : Provenance.codec.RoundTrips :=
  object_roundTrips (.iso
    (.cons (optionalText_roundTrips _)
      (.cons (optionalText_roundTrips _)
        (.cons (optionalText_roundTrips _)
          (.cons (optional_roundTrips _ boolean_roundTrips boolean_ne_null)
            (single_roundTrips (optionalText_roundTrips _))))))
    _)

theorem Signature.codec_roundTrips : Signature.codec.RoundTrips :=
  object_roundTrips (.iso
    (.cons (requiredText_roundTrips _)
      (.cons (required_roundTrips _ choice_roundTrips)
        (single_roundTrips (requiredText_roundTrips _))))
    _)

namespace Document

theorem bodyRecord_roundTrips : bodyRecord.RoundTrips :=
  .iso
    (.cons (requiredText_roundTrips _)
      (.cons (requiredText_roundTrips _)
        (.cons (required_roundTrips _ Publisher.codec_roundTrips)
          (.cons (required_roundTrips _ Model.codec_roundTrips)
            (.cons (required_roundTrips _ License.codec_roundTrips)
              (.cons (required_roundTrips _ Access.codec_roundTrips)
                (.cons (required_roundTrips _ (.list DocumentArtifact.codec_roundTrips))
                  (single_roundTrips
                    (optional_roundTrips _ Provenance.codec_roundTrips
                      (object_ne_null _))))))))))
    _

/-- **A manifest that was read is read back** from what is written of it. -/
theorem fromJson_encode {doc : Json} {d : Document} (h : fromJson doc = some d) :
    fromJson (codec.encode d) = some d :=
  object_roundTrips
    (.iso
      (.append bodyRecord_roundTrips
        (single_roundTrips
          (defaulted_roundTrips _ (.list Signature.codec_roundTrips) ⟨arr [], rfl⟩))
        _)
      _)
    doc d h false

end Document

end Atlas
