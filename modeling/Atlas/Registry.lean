import Atlas.Tracker
import Atlas.Transition

/-!
# The registry's tracker service

The requests that reach the tracker: announces and withdrawals, which must prove
who sent them, and lookups, which anyone may make. A proof that is present is
always verified; a request without one is accepted only while unsigned clients
are tolerated. Nothing is written before a request is authorised.

`TrackerState` is the tracker and the clock, and `TrackerOp` everything that can
happen to it: a request of any kind, or time passing.
-/

namespace Atlas

open Text

/-- Verify an announce or withdraw ownership proof; a missing part is a rejection. -/
def verifyAnnounceAuth (S : SignatureScheme) (method nodeId : Text) (ts : Option ℤ)
    (sig : Option Text) (ticket audience : Text) (itemIds : List Text) (now : ℤ) : Bool :=
  match ts, sig with
  | some ts, some sig => verify S method nodeId ts ticket audience itemIds sig now
  | _, _ => false

/-- Authorize an announce or withdraw under the registry's auth mode: a present
proof is always verified, a request with no proof is accepted only when signing
is not required. -/
def announceAuthorized (S : SignatureScheme) (requireSigned : Bool) (method nodeId : Text)
    (ts : Option ℤ) (sig : Option Text) (ticket audience : Text) (itemIds : List Text)
    (now : ℤ) : Bool :=
  if ts.isSome && sig.isSome then
    verifyAnnounceAuth S method nodeId ts sig ticket audience itemIds now
  else !requireSigned

/-- **What is authorised where signing is required was signed** with the key its
node id decodes to. -/
theorem announceAuthorized_eq_true {S : SignatureScheme} {method nodeId : Text} {ts : Option ℤ}
    {sig : Option Text} {ticket audience : Text} {itemIds : List Text} {now : ℤ}
    (h : announceAuthorized S true method nodeId ts sig ticket audience itemIds now = true) :
    ∃ t g key payload, ts = some t ∧ sig = some g ∧ decodeNodeId nodeId = some key ∧
      canonicalPayload method nodeId t ticket audience itemIds = some payload ∧
      S.accepts key payload g = true := by
  unfold announceAuthorized at h
  split at h
  · unfold verifyAnnounceAuth at h
    split at h
    · rename_i t g _
      unfold verify at h
      split at h
      · cases h
      · split at h
        · cases h
        · rename_i payload hpayload
          split at h
          · cases h
          · rename_i key hkey
            exact ⟨t, g, key, payload, rfl, rfl, hkey, hpayload, h⟩
    · cases h
  · cases h

/-- What an announce asks for, with the proof of who asks where it carries one. -/
structure AnnounceReq where
  /-- The announcer's node ticket, bound into the signature. -/
  node : Text
  /-- The announcer's stable node id. -/
  nodeId : Option Text
  device : Option Text
  group : Option Text
  items : List AnnouncedItem
  ts : Option ℤ
  sig : Option Text
  deriving DecidableEq, Repr

/-- What a peer sends to take listed files back, signed by the node that it names as its own. -/
structure WithdrawReq where
  nodeId : Text
  /-- What to withdraw; nothing means everything. -/
  items : List Text
  ts : Option ℤ
  sig : Option Text
  deriving DecidableEq, Repr

/-- The statuses that the two handlers answer with, of all that HTTP has. -/
inductive StatusCode where
  | ok
  | created
  | badRequest
  | unauthorized
  deriving DecidableEq, Repr

/-- How a registry is run: under which URL, and whether it asks for signatures. -/
structure RegistryConfig where
  /-- The registry's public base URL, the audience of every signature. -/
  publicUrl : Text
  /-- Require a signed ownership proof on every announce and withdraw. -/
  requireSigned : Bool

/-- The most items of one announce that are stored; a longer list is cut after so many, and
the rest is not stored. -/
def MAX_ANNOUNCED_ITEMS : ℕ := 10000

/-- The claimed node id of an announce, unless it is missing or empty. -/
def AnnounceReq.claimed (req : AnnounceReq) : Option Text := req.nodeId.filter fun s => s ≠ []

/-- The ids that the signature of an announce is over, in the order in which the announce
lists them. -/
def AnnounceReq.itemIds (req : AnnounceReq) : List Text := req.items.map AnnouncedItem.blake3

/-- The items of an announce that are stored: the first so many, and of these the ones with
an id of full length. -/
def AnnounceReq.storedItems (req : AnnounceReq) : List AnnouncedItem :=
  (req.items.take MAX_ANNOUNCED_ITEMS).filter fun i => i.blake3.utf8Len = 64

section Handlers

variable (S : SignatureScheme) (lowercase : Text → Text) (cfg : RegistryConfig)

/-- Whether an announce is accepted, and under which node id, which it is if it names a
node, has items and passes the authorisation. -/
def AnnounceReq.accepted (req : AnnounceReq) (now : ℤ) : Option Text :=
  if req.node.trim = [] ∨ req.items = [] then none
  else req.claimed.filter fun nodeId =>
    announceAuthorized S cfg.requireSigned AnnounceMethod.announce.name nodeId req.ts req.sig
      req.node cfg.publicUrl req.itemIds now

/-- A peer announces the content it shares so that others can find it. -/
def handleAnnounce (now : ℤ) (req : AnnounceReq) (t : Tracker) : StatusCode × Tracker :=
  if req.node.trim = [] ∨ req.items = [] then (.badRequest, t)
  else match req.accepted S cfg now with
    | none => (.unauthorized, t)
    | some nodeId =>
      (.created, t.announce lowercase now req.node nodeId req.device req.group req.storedItems)

/-- Whether a withdrawal is accepted. It carries no node ticket, so the bound
ticket is empty. -/
def WithdrawReq.accepted (req : WithdrawReq) (now : ℤ) : Bool :=
  req.nodeId.trim ≠ [] &&
    announceAuthorized S cfg.requireSigned AnnounceMethod.withdraw.name req.nodeId req.ts
      req.sig [] cfg.publicUrl req.items now

/-- A peer un-announces content it no longer serves; a request without a node id, or without
a proof where one is required, changes nothing. -/
def handleWithdraw (now : ℤ) (req : WithdrawReq) (t : Tracker) : StatusCode × Tracker :=
  if req.nodeId.trim = [] then (.badRequest, t)
  else if req.accepted S cfg now then (.ok, t.withdraw lowercase now req.nodeId req.items)
  else (.unauthorized, t)

/-- What an accepted announce does. -/
theorem handleAnnounce_tracker (now : ℤ) (req : AnnounceReq) (t : Tracker) :
    (handleAnnounce S lowercase cfg now req t).2 = t ∨
      ∃ nodeId ∈ req.accepted S cfg now, (handleAnnounce S lowercase cfg now req t).2 =
        t.announce lowercase now req.node nodeId req.device req.group req.storedItems := by
  unfold handleAnnounce
  split
  · exact Or.inl rfl
  · cases haccepted : req.accepted S cfg now with
    | none => exact Or.inl rfl
    | some nodeId => exact Or.inr ⟨nodeId, rfl, rfl⟩

/-- What an accepted withdrawal does. -/
theorem handleWithdraw_tracker (now : ℤ) (req : WithdrawReq) (t : Tracker) :
    (handleWithdraw S lowercase cfg now req t).2 = t ∨
      (req.accepted S cfg now = true ∧ (handleWithdraw S lowercase cfg now req t).2 =
        t.withdraw lowercase now req.nodeId req.items) := by
  unfold handleWithdraw
  split
  · exact Or.inl rfl
  · split
    · rename_i haccepted
      exact Or.inr ⟨haccepted, rfl⟩
    · exact Or.inl rfl

/-! ## Runs -/

/-- The tracker, and the clock in milliseconds, which only time itself moves. -/
structure TrackerState where
  tracker : Tracker
  now : ℤ

/-- What can happen to a tracker: time passes, or one of its requests comes in. -/
inductive TrackerOp where
  /-- Time passes. -/
  | wait (ms : ℕ)
  | announce (req : AnnounceReq)
  | withdraw (req : WithdrawReq)
  | get (hash : Text) (exclude : Option Text)
  | browse (q : Text) (group selfId : Option Text) (limit : ℕ)
  | stats

/-- The state after an operation, whatever the operation is answered with. -/
def TrackerState.step (s : TrackerState) : TrackerOp → TrackerState
  | .wait ms => { s with now := s.now + ms }
  | .announce req =>
    { s with tracker := (handleAnnounce S lowercase cfg s.now req s.tracker).2 }
  | .withdraw req =>
    { s with tracker := (handleWithdraw S lowercase cfg s.now req s.tracker).2 }
  | .get hash exclude =>
    { s with tracker := (s.tracker.get lowercase s.now hash exclude).2 }
  | .browse q group selfId limit =>
    { s with tracker := (s.tracker.browse lowercase s.now q group selfId limit).2 }
  | .stats => { s with tracker := (s.tracker.stats s.now).2 }

/-- A tracker that was just started, at some time, which knows no provider yet and has
pruned nothing before. -/
def TrackerState.start (now : ℤ) : TrackerState := ⟨Tracker.empty, now⟩

/-- The live providers of a blob, at the state's own time. -/
def TrackerState.live (s : TrackerState) (blake3 : Text) : List Provider :=
  s.tracker.live s.now blake3

end Handlers

end Atlas
