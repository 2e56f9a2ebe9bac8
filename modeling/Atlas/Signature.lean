import Atlas.Hash
import Mathlib.Algebra.Ring.Int.Defs

/-!
# Signatures

What the development relies on an Ed25519 library and a base64 library for. An
ideal scheme is one in which a signature that verifies was made: nothing else
is ever assumed of it.
-/

namespace Atlas

open Text

/-- What the signature and base64 libraries do, as far as the code calls on them. -/
structure SignatureScheme where
  /-- These 32 bytes are an Ed25519 public key. -/
  validKey : Bytes → Bool
  /-- The signature is the key's over the message. -/
  verifies : Bytes → Bytes → Bytes → Bool
  base64Decode : Text → Option Bytes

/-- **An ideal scheme**: what verifies under a key was signed with it. -/
def SignatureScheme.Ideal (S : SignatureScheme) (Signed : Bytes → Bytes → Prop) : Prop :=
  ∀ key message sig, S.verifies key message sig = true → Signed key message

/-- Whether a base64 signature is a key's over a message: the key is 32 bytes
that are one, the signature 64 bytes, and it verifies. -/
def SignatureScheme.accepts (S : SignatureScheme) (key message : Bytes) (value : Text) :
    Bool :=
  key.length = 32 && S.validKey key &&
    match S.base64Decode value with
    | none => false
    | some sig => sig.length = 64 && S.verifies key message sig

theorem SignatureScheme.accepts_eq_true {S : SignatureScheme} {key message : Bytes}
    {value : Text} (h : S.accepts key message value = true) :
    S.validKey key = true ∧
      ∃ sig, S.base64Decode value = some sig ∧ S.verifies key message sig = true := by
  unfold SignatureScheme.accepts at h
  obtain ⟨hkey, hsig⟩ := Bool.and_eq_true_iff.mp h
  refine ⟨(Bool.and_eq_true_iff.mp hkey).2, ?_⟩
  cases hdecode : S.base64Decode value with
  | none =>
    rw [hdecode] at hsig
    cases hsig
  | some sig =>
    rw [hdecode] at hsig
    exact ⟨sig, rfl, (Bool.and_eq_true_iff.mp hsig).2⟩

/-- What is accepted was signed. -/
theorem SignatureScheme.Ideal.signed {S : SignatureScheme} {Signed : Bytes → Bytes → Prop}
    (h : S.Ideal Signed) {key message : Bytes} {value : Text}
    (haccepts : S.accepts key message value = true) : Signed key message := by
  obtain ⟨-, sig, -, hverifies⟩ := SignatureScheme.accepts_eq_true haccepts
  exact h key message sig hverifies

/-- A signature somebody made: with which key, of what, and how it is written. -/
structure KnownSignature where
  key : Bytes
  message : Bytes
  sig : Bytes
  value : Text
  deriving DecidableEq

/-- A scheme that knows some signatures and no others, for closed examples: it knows which
key signed which message, and verifies nothing else. -/
def SignatureScheme.knowing (known : List KnownSignature) : SignatureScheme where
  validKey key := known.any fun k => k.key = key
  verifies key message sig :=
    known.any fun k => k.key = key ∧ k.message = message ∧ k.sig = sig
  base64Decode value := (known.find? fun k => k.value = value).map KnownSignature.sig

/-- What was signed with the known signatures, and nothing else. -/
def SignedIn (known : List KnownSignature) (key message : Bytes) : Prop :=
  ∃ k ∈ known, k.key = key ∧ k.message = message

theorem SignatureScheme.knowing_ideal (known : List KnownSignature) :
    (SignatureScheme.knowing known).Ideal (SignedIn known) := by
  intro key message sig h
  obtain ⟨k, hk, hverifies⟩ := List.any_eq_true.mp h
  obtain ⟨hkey, hmessage, -⟩ := of_decide_eq_true hverifies
  exact ⟨k, hk, hkey, hmessage⟩

/-! ## Signing -/

/-- A scheme with its signing side, for the programs that sign. -/
structure SigningScheme extends SignatureScheme where
  /-- The public key of a secret. -/
  publicKey : Bytes → Bytes
  sign : Bytes → Bytes → Bytes
  base64Encode : Bytes → Text

/-- **A correct scheme**: a signature verifies under its own key and over its own
message, and base64 can be decoded. -/
structure SigningScheme.Correct (S : SigningScheme) : Prop where
  publicKey_length : ∀ secret, (S.publicKey secret).length = 32
  validKey : ∀ secret, S.validKey (S.publicKey secret) = true
  sign_length : ∀ secret message, (S.sign secret message).length = 64
  verifies : ∀ secret message,
    S.verifies (S.publicKey secret) message (S.sign secret message) = true
  base64 : ∀ bytes, S.base64Decode (S.base64Encode bytes) = some bytes

/-- What is signed is accepted. -/
theorem SigningScheme.Correct.accepts {S : SigningScheme} (h : S.Correct)
    (secret message : Bytes) :
    S.accepts (S.publicKey secret) message (S.base64Encode (S.sign secret message)) = true := by
  unfold SignatureScheme.accepts
  rw [h.publicKey_length, h.validKey, h.base64]
  show (true && (decide ((S.sign secret message).length = 64) && _)) = true
  rw [h.sign_length, h.verifies]
  rfl

/-- A signature somebody made, with the secret it was made with, from which such a scheme
can also answer the signer. -/
structure KnownSecret extends KnownSignature where
  secret : Bytes
  deriving DecidableEq

/-- A signing scheme that knows some signatures. Of anything else it makes a signature
that it accepts for everything. -/
def SigningScheme.knowing (known : List KnownSecret) : SigningScheme where
  validKey key := key.length = 32
  verifies key message sig :=
    (known.any fun k => k.key = key ∧ k.message = message ∧ k.sig = sig) ||
      sig = List.replicate 64 0
  base64Decode value :=
    ((known.find? fun k => k.value = value).map fun k => k.sig).or (hexDecode value)
  publicKey secret :=
    ((known.find? fun k => k.secret = secret).map fun k => k.key).getD (List.replicate 32 0)
  sign secret message :=
    ((known.find? fun k => k.secret = secret ∧ k.message = message).map fun k => k.sig).getD
      (List.replicate 64 0)
  base64Encode bytes :=
    ((known.find? fun k => k.sig = bytes).map fun k => k.value).getD (hexEncode bytes)

/-- What is known is consistent: lengths are right, a secret has one key, a text stands
for one signature, and no text is hexadecimal. -/
def KnownSecret.Consistent (known : List KnownSecret) : Prop :=
  ∀ k ∈ known, k.key.length = 32 ∧ k.sig.length = 64 ∧ k.value.all isAsciiHexdigit = false ∧
    ∀ k' ∈ known, (k.secret = k'.secret → k.key = k'.key) ∧
      (k.value = k'.value → k.sig = k'.sig)

instance (known : List KnownSecret) : Decidable (KnownSecret.Consistent known) :=
  inferInstanceAs (Decidable (∀ k ∈ known, _ ∧ _ ∧ _ ∧ ∀ k' ∈ known, _))

theorem SigningScheme.knowing_correct {known : List KnownSecret}
    (h : KnownSecret.Consistent known) : (SigningScheme.knowing known).Correct := by
  have hlength : ∀ secret, ((SigningScheme.knowing known).publicKey secret).length = 32 := by
    intro secret
    dsimp only [SigningScheme.knowing]
    cases hfind : known.find? fun k => k.secret = secret with
    | none => exact List.length_replicate
    | some k => exact (h k (List.mem_of_find?_eq_some hfind)).1
  refine ⟨hlength, fun secret => decide_eq_true (hlength secret), fun secret message => ?_,
    fun secret message => ?_, fun bytes => ?_⟩
  · dsimp only [SigningScheme.knowing]
    cases hfind : known.find? fun k => k.secret = secret ∧ k.message = message with
    | none => exact List.length_replicate
    | some k => exact (h k (List.mem_of_find?_eq_some hfind)).2.1
  · dsimp only [SigningScheme.knowing]
    rw [Bool.or_eq_true_iff]
    cases hfind : known.find? fun k => k.secret = secret ∧ k.message = message with
    | none => exact Or.inr (decide_eq_true rfl)
    | some k =>
      have hmem := List.mem_of_find?_eq_some hfind
      have hfound := List.find?_some hfind
      obtain ⟨hsecret, hmessage⟩ := of_decide_eq_true hfound
      refine Or.inl (List.any_eq_true.mpr ⟨k, hmem, decide_eq_true ⟨?_, hmessage, rfl⟩⟩)
      cases hkey : known.find? fun k => k.secret = secret with
      | none => exact absurd (decide_eq_true hsecret) (List.find?_eq_none.mp hkey k hmem)
      | some k' =>
        have hfound' := List.find?_some hkey
        exact ((h k hmem).2.2.2 k' (List.mem_of_find?_eq_some hkey)).1
          (hsecret.trans (of_decide_eq_true hfound').symm)
  · dsimp only [SigningScheme.knowing]
    cases hfind : known.find? fun k => k.sig = bytes with
    | none =>
      -- nothing known is hexadecimal
      have hnone : (known.find? fun k => k.value = hexEncode bytes) = none := by
        refine List.find?_eq_none.mpr fun k hk heq => ?_
        have hhex := (h k hk).2.2.1
        rw [of_decide_eq_true heq, all_isAsciiHexdigit_hexEncode] at hhex
        cases hhex
      show ((known.find? fun k => k.value = hexEncode bytes).map _).or _ = _
      rw [hnone]
      exact hexDecode_hexEncode bytes
    | some k =>
      have hmem := List.mem_of_find?_eq_some hfind
      have hsig := List.find?_some hfind
      show ((known.find? fun k' => k'.value = k.value).map _).or _ = _
      cases hvalue : known.find? fun k' => k'.value = k.value with
      | none => exact absurd (decide_eq_true rfl) (List.find?_eq_none.mp hvalue k hmem)
      | some k' =>
        have hfound := List.find?_some hvalue
        have heq := ((h k hmem).2.2.2 k' (List.mem_of_find?_eq_some hvalue)).2
          (of_decide_eq_true hfound).symm
        exact congrArg some (heq.symm.trans (of_decide_eq_true hsig))

/-- **A known signature is accepted.** -/
theorem SigningScheme.knowing_accepts {known : List KnownSecret}
    (h : KnownSecret.Consistent known) {k : KnownSecret} (hk : k ∈ known) :
    (SigningScheme.knowing known).accepts k.key k.message k.value = true := by
  obtain ⟨hkey, hsig, -, hsame⟩ := h k hk
  have hdecode : (SigningScheme.knowing known).base64Decode k.value = some k.sig := by
    show ((known.find? fun k' => k'.value = k.value).map _).or _ = _
    cases hvalue : known.find? fun k' => k'.value = k.value with
    | none => exact absurd (decide_eq_true rfl) (List.find?_eq_none.mp hvalue k hk)
    | some k' =>
      have hfound := List.find?_some hvalue
      have heq := (hsame k' (List.mem_of_find?_eq_some hvalue)).2
        (of_decide_eq_true hfound).symm
      exact congrArg some heq.symm
  have hverifies : (SigningScheme.knowing known).verifies k.key k.message k.sig = true :=
    Bool.or_eq_true_iff.mpr
      (.inl (List.any_eq_true.mpr ⟨k, hk, decide_eq_true ⟨rfl, rfl, rfl⟩⟩))
  have hvalid : (SigningScheme.knowing known).validKey k.key = true := decide_eq_true hkey
  unfold SignatureScheme.accepts
  rw [hvalid, hdecode]
  show (decide (k.key.length = 32) && true && (decide (k.sig.length = 64) && _)) = true
  rw [hkey, hsig, hverifies]
  rfl

/-- Subtraction of signed 64-bit integers that stops at the ends of the range,
which is how the age of what is signed is found. -/
def saturatingSub (a b : ℤ) : ℤ := max (-(2 ^ 63)) (min (2 ^ 63 - 1) (a - b))

end Atlas
