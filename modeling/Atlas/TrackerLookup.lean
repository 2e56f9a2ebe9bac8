import Atlas.Registry

/-!
# Who decides what a lookup finds

A hash is looked up in the alias table first, and every announcer writes that
table: an announce that gives a SHA-256 sends every later lookup of that text to
its own blob. The records themselves are safe, since a request only touches the
records of the key that signed it.

`Tracker.ItemFits` is the condition under which an announced item does not redirect
anyone: its SHA-256 is neither the BLAKE3 nor the SHA-256 of another blob with a
live provider, and its BLAKE3 is not redirected already. In every run whose items
all fit, a lookup by either digest of a live provider finds exactly the live
providers of its blob, and nobody else can make a provider disappear from it
(`lookups_not_hijacked`). One item that does not fit hides a blob from everyone
(`lookup_hijacked`).
-/

namespace Atlas

open Text Transition

variable {S : SignatureScheme} {lowercase : Text → Text} {cfg : RegistryConfig}

namespace Tracker

/-! ## The condition -/

/-- An announced item redirects nobody's lookups: it claims no name that another blob's
records go by. -/
def ItemFits (lowercase : Text → Text) (now : ℤ) (t : Tracker) (it : AnnouncedItem) : Prop :=
  let b3 := lowercase it.blake3
  let sha := storedSha256 lowercase it
  (¬ (sha ≠ [] ∧ b3 = sha) → ∀ b ∈ t.aliases.lookup b3, b = b3) ∧
    (sha ≠ [] → ∀ e ∈ t.providers.entries, e.1 ≠ b3 → ∀ p ∈ e.2, p.isLive now = true →
      sha ≠ e.1 ∧ sha ≠ p.sha256)

instance (now : ℤ) (t : Tracker) (it : AnnouncedItem) :
    Decidable (t.ItemFits lowercase now it) :=
  inferInstanceAs (Decidable (_ ∧ _))

/-- What is live is in some entry of the table. -/
theorem exists_entry_of_mem_live {now : ℤ} {t : Tracker} {b : Text} {p : Provider}
    (h : p ∈ t.live now b) : ∃ e ∈ t.providers.entries, e.1 = b ∧ p ∈ e.2 ∧
      p.isLive now = true := by
  obtain ⟨hheld, hlive⟩ := mem_live.mp h
  unfold held at hheld
  cases hlookup : t.providers.lookup b with
  | none =>
    rw [hlookup] at hheld
    cases hheld
  | some v =>
    rw [hlookup] at hheld
    exact ⟨⟨b, v⟩, AList.mem_entries_iff.mpr hlookup, rfl, hheld, hlive⟩

/-! ## The invariant -/

/-- **Aliases lead where they should**: no blob with a live provider is
redirected, and the SHA-256 of a live provider leads to its blob. -/
def AliasesSound (now : ℤ) (t : Tracker) : Prop :=
  ∀ b, ∀ p ∈ t.live now b,
    (∀ b', t.aliases.lookup b = some b' → b' = b) ∧
      (p.sha256 ≠ [] → t.aliases.lookup p.sha256 = some b)

theorem aliasesSound_empty (now : ℤ) : empty.AliasesSound now := by
  intro b p hp
  cases hp

/-- Time alone changes no alias. -/
theorem AliasesSound.wait {now now' : ℤ} {t : Tracker} (h : t.AliasesSound now)
    (hle : now ≤ now') : t.AliasesSound now' :=
  fun b p hp => h b p (mem_live.mpr ⟨(mem_live.mp hp).1, isLive_of_le hle (mem_live.mp hp).2⟩)

/-- Dropping records, and the aliases of blobs that are left without any, keeps
the other aliases. -/
theorem AliasesSound.of_drop {now : ℤ} {t t' : Tracker} (h : t.AliasesSound now)
    (hlive : ∀ b, ∀ p ∈ t'.live now b, p ∈ t.live now b)
    (haliases : ∀ hash b, t'.aliases.lookup hash = some b → t.aliases.lookup hash = some b)
    (hkept : ∀ hash b, t.aliases.lookup hash = some b → t'.live now b ≠ [] →
      t'.aliases.lookup hash = some b) : t'.AliasesSound now := by
  intro b p hp
  obtain ⟨hdirect, hsha⟩ := h b p (hlive b p hp)
  refine ⟨fun b' hb' => hdirect b' (haliases b b' hb'), fun hne => ?_⟩
  exact hkept _ _ (hsha hne) (List.ne_nil_of_mem hp)

theorem AliasesSound.prune {now : ℤ} {t : Tracker} (h : t.AliasesSound now) :
    (t.prune now).2.AliasesSound now := by
  refine h.of_drop (fun b p hp => live_prune now t b ▸ hp) (fun hash b hb => ?_)
    fun hash b hb hne => ?_
  · rw [lookup_aliases_prune] at hb
    exact (Option.filter_eq_some_iff.mp hb).1
  · rw [live_prune] at hne
    rw [lookup_aliases_prune, hb]
    exact Option.filter_some_pos (decide_eq_true hne)

/-- **An item that fits keeps every alias right.** -/
theorem AliasesSound.announceItem {now : ℤ} {node nodeId : Text} {device group : Option Text}
    {t : Tracker} {it : AnnouncedItem} (h : t.AliasesSound now)
    (hfits : t.ItemFits lowercase now it) :
    (Tracker.announceItem lowercase now node nodeId device group t it).AliasesSound now := by
  obtain ⟨hb3, hsha⟩ := hfits
  generalize hblob : lowercase it.blake3 = b3 at hb3 hsha
  generalize hdigest : storedSha256 lowercase it = sha at hb3 hsha
  have haliases : ∀ hash, (Tracker.announceItem lowercase now node nodeId device group t
      it).aliases.lookup hash =
        if sha ≠ [] ∧ hash = sha then some b3 else t.aliases.lookup hash := by
    intro hash
    unfold Tracker.announceItem
    dsimp only
    rw [hblob, hdigest]
    by_cases hnil : sha ≠ []
    · rw [if_pos hnil]
      by_cases heq : hash = sha
      · rw [if_pos ⟨hnil, heq⟩, heq, AList.lookup_insert]
      · rw [if_neg fun hboth => heq hboth.2, AList.lookup_insert_ne heq]
    · rw [if_neg hnil, if_neg fun hboth => hnil hboth.1]
  -- a live provider of another blob is not redirected by the new alias
  have hother : sha ≠ [] → ∀ b ≠ b3, ∀ p ∈ t.live now b, sha ≠ b ∧ sha ≠ p.sha256 := by
    intro hnil b hne p hp
    obtain ⟨e, he, rfl, hmem, hlive⟩ := exists_entry_of_mem_live hp
    exact hsha hnil e he hne p hmem hlive
  have hb3' : ∀ b', (Tracker.announceItem lowercase now node nodeId device group t
      it).aliases.lookup b3 = some b' → b' = b3 := by
    intro b' hb'
    rw [haliases] at hb'
    by_cases hself : sha ≠ [] ∧ b3 = sha
    · rw [if_pos hself] at hb'
      exact (Option.some.inj hb').symm
    · rw [if_neg hself] at hb'
      exact hb3 hself b' hb'
  intro b p hp
  rw [live_announceItem, hblob] at hp
  by_cases hb : b = b3
  · rw [if_pos hb] at hp
    subst hb
    refine ⟨hb3', fun hne => ?_⟩
    rw [haliases]
    obtain hold | hnew := List.mem_append.mp hp
    · split
      · rfl
      · exact (h b p (List.mem_of_mem_filter hold)).2 hne
    · obtain rfl := List.mem_singleton.mp hnew
      have hown : (record lowercase now node nodeId device group it).sha256 = sha := hdigest
      rw [hown] at hne ⊢
      rw [if_pos ⟨hne, rfl⟩]
  · rw [if_neg hb] at hp
    obtain ⟨hdirect, hlead⟩ := h b p hp
    refine ⟨fun b' hb' => ?_, fun hne => ?_⟩
    · rw [haliases] at hb'
      split at hb'
      · rename_i hboth
        exact absurd hboth.2.symm (hother hboth.1 b hb p hp).1
      · exact hdirect b' hb'
    · rw [haliases]
      split
      · rename_i hboth
        exact absurd hboth.2.symm (hother hboth.1 b hb p hp).2
      · exact hlead hne

theorem AliasesSound.withdraw {now : ℤ} {t : Tracker} (h : t.AliasesSound now) (nodeId : Text)
    (blakes : List Text) : (t.withdraw lowercase now nodeId blakes).AliasesSound now := by
  unfold Tracker.withdraw
  split
  · exact h
  · refine AliasesSound.prune (h.of_drop (fun b p hp => ?_) (fun _ _ => id) fun _ _ ha _ => ha)
    obtain ⟨hheld, hlive⟩ := mem_live.mp hp
    rw [held_dropRecords] at hheld
    exact mem_live.mpr ⟨List.mem_of_mem_filter hheld, hlive⟩

theorem AliasesSound.get {now : ℤ} {t : Tracker} (h : t.AliasesSound now) (hash : Text)
    (exclude : Option Text) : (t.get lowercase now hash exclude).2.AliasesSound now := by
  refine h.of_drop (fun b p hp => ?_) (fun _ _ => id) fun _ _ ha _ => ha
  obtain ⟨hheld, hlive⟩ := mem_live.mp hp
  rw [held_get] at hheld
  split at hheld
  · exact hheld
  · exact mem_live.mpr ⟨hheld, hlive⟩

/-- **With sound aliases a lookup finds what it should**: the live providers of
the blob, by its BLAKE3 and by the SHA-256 of any of them. -/
theorem AliasesSound.get_found {now : ℤ} {t : Tracker} (h : t.AliasesSound now) {b hash : Text}
    {p : Provider} (hp : p ∈ t.live now b)
    (hhash : lowercase hash = b ∨ (lowercase hash = p.sha256 ∧ p.sha256 ≠ [])) :
    (t.get lowercase now hash none).1 = (b, t.live now b) := by
  obtain ⟨hdirect, hlead⟩ := h b p hp
  have hresolve : t.resolve lowercase hash = b := by
    show (t.aliases.lookup (lowercase hash)).getD (lowercase hash) = b
    obtain hb | ⟨hsha, hne⟩ := hhash
    · rw [hb]
      cases halias : t.aliases.lookup b with
      | none => rfl
      | some b' => exact hdirect b' halias
    · rw [hsha, hlead hne]
      rfl
  rw [Tracker.get_found, hresolve]
  exact congrArg (Prod.mk b) (List.filter_eq_self.mpr fun _ _ => rfl)

end Tracker

/-! ## Runs -/

/-- All items of an accepted announce fit, one after another, which is asked of each in the
state that the earlier ones have led to. -/
def TrackerOp.Fits (S : SignatureScheme) (lowercase : Text → Text) (cfg : RegistryConfig)
    (s : TrackerState) : TrackerOp → Prop
  | .announce req => ∀ nodeId ∈ req.accepted S cfg s.now,
    Along (Tracker.announceItem lowercase s.now req.node nodeId req.device req.group)
      (fun t it => t.ItemFits lowercase s.now it) req.storedItems s.tracker
  | _ => True

instance (s : TrackerState) : DecidablePred (TrackerOp.Fits S lowercase cfg s)
  | .wait _ => .isTrue trivial
  | .announce req => inferInstanceAs (Decidable (∀ nodeId ∈ req.accepted S cfg s.now,
    Along (Tracker.announceItem lowercase s.now req.node nodeId req.device req.group)
      (fun t it => t.ItemFits lowercase s.now it) req.storedItems s.tracker))
  | .withdraw _ => .isTrue trivial
  | .get _ _ => .isTrue trivial
  | .browse _ _ _ _ => .isTrue trivial
  | .stats => .isTrue trivial

/-- **One operation that fits** keeps the aliases sound. -/
theorem TrackerState.aliasesSound_step {s : TrackerState} {op : TrackerOp}
    (h : s.tracker.AliasesSound s.now) (hfits : op.Fits S lowercase cfg s) :
    (s.step S lowercase cfg op).tracker.AliasesSound (s.step S lowercase cfg op).now := by
  cases op with
  | wait ms => exact h.wait (Int.le_add_of_nonneg_right (Int.natCast_nonneg ms))
  | announce req =>
    obtain hsame | ⟨nodeId, haccepted, hdone⟩ :=
      handleAnnounce_tracker S lowercase cfg s.now req s.tracker
    · show (handleAnnounce S lowercase cfg s.now req s.tracker).2.AliasesSound s.now
      rwa [hsame]
    · show (handleAnnounce S lowercase cfg s.now req s.tracker).2.AliasesSound s.now
      rw [hdone]
      exact (hfits nodeId haccepted).invariant (I := fun t => t.AliasesSound s.now)
        (fun _ _ hsound hit => hsound.announceItem hit) h
  | withdraw req =>
    obtain hsame | ⟨-, hdone⟩ :=
      handleWithdraw_tracker S lowercase cfg s.now req s.tracker
    · show (handleWithdraw S lowercase cfg s.now req s.tracker).2.AliasesSound s.now
      rwa [hsame]
    · show (handleWithdraw S lowercase cfg s.now req s.tracker).2.AliasesSound s.now
      rw [hdone]
      exact h.withdraw _ _
  | get hash exclude => exact h.get hash exclude
  | browse q group selfId limit => exact h.prune
  | stats => exact h.prune

/-! ## Other nodes -/

/-- A request was signed with a key, for this registry: it has signed the payload that the
registry makes of the request. -/
def TrackerOp.SignedWith (cfg : RegistryConfig) (Signed : Bytes → Bytes → Prop) (key : Bytes) :
    TrackerOp → Prop
  | .announce req => ∃ nodeId ts payload, req.claimed = some nodeId ∧ req.ts = some ts ∧
    canonicalPayload AnnounceMethod.announce.name nodeId ts req.node cfg.publicUrl
      req.itemIds = some payload ∧ Signed key payload
  | .withdraw req => ∃ ts payload, req.ts = some ts ∧
    canonicalPayload AnnounceMethod.withdraw.name req.nodeId ts [] cfg.publicUrl
      req.items = some payload ∧ Signed key payload
  | _ => False

/-- An announce under one node id keeps the records under the others. -/
theorem Tracker.mem_live_announce {now : ℤ} {node nodeId : Text} {device group : Option Text}
    {items : List AnnouncedItem} {t : Tracker} {b : Text} {p : Provider} (hp : p ∈ t.live now b)
    (hne : p.nodeId ≠ nodeId) :
    p ∈ (t.announce lowercase now node nodeId device group items).live now b := by
  unfold Tracker.announce
  induction items generalizing t with
  | nil => exact hp
  | cons it items ih =>
    refine ih ?_
    rw [Tracker.live_announceItem]
    split
    · exact List.mem_append_left _ (List.mem_filter.mpr ⟨hp, decide_eq_true hne⟩)
    · exact hp

/-- A withdrawal under one node id keeps the records under the others. -/
theorem Tracker.mem_live_withdraw {now : ℤ} {nodeId : Text} {blakes : List Text} {t : Tracker}
    {b : Text} {p : Provider} (hp : p ∈ t.live now b) (hne : p.nodeId ≠ nodeId) :
    p ∈ (t.withdraw lowercase now nodeId blakes).live now b := by
  unfold Tracker.withdraw
  split
  · exact hp
  · obtain ⟨hheld, hlive⟩ := Tracker.mem_live.mp hp
    rw [Tracker.live_prune]
    refine Tracker.mem_live.mpr ⟨?_, hlive⟩
    rw [Tracker.held_dropRecords]
    exact List.mem_filter.mpr ⟨hheld, decide_eq_true fun h => hne h.2⟩

/-- **Nobody else's request drops a record.** -/
theorem TrackerState.mem_live_step {Signed : Bytes → Bytes → Prop} (hideal : S.Ideal Signed)
    (hrequire : cfg.requireSigned = true) {s : TrackerState} {op : TrackerOp} {b : Text}
    {p : Provider} (hp : p ∈ s.live b) (hop : ∀ ms, op ≠ .wait ms)
    (hother : ∀ key, decodeNodeId p.nodeId = some key → ¬ op.SignedWith cfg Signed key) :
    p ∈ (s.step S lowercase cfg op).live b := by
  -- lookups and browsing prune what has expired and nothing live; an announce or a withdraw reaches
  -- `p` only under the key that signs for its node id
  cases op with
  | wait ms => exact absurd rfl (hop ms)
  | announce req =>
    show p ∈ (handleAnnounce S lowercase cfg s.now req s.tracker).2.live s.now b
    obtain hsame | ⟨nodeId, haccepted, hdone⟩ :=
      handleAnnounce_tracker S lowercase cfg s.now req s.tracker
    · rw [hsame]
      exact hp
    · rw [hdone]
      refine Tracker.mem_live_announce hp fun hid => ?_
      unfold AnnounceReq.accepted at haccepted
      split at haccepted
      · cases haccepted
      · obtain ⟨hclaimed, hauthorized⟩ := Option.filter_eq_some_iff.mp haccepted
        rw [hrequire] at hauthorized
        obtain ⟨ts, sig, key, payload, hts, -, hkey, hpayload, hsig⟩ :=
          announceAuthorized_eq_true hauthorized
        -- the request that would replace `p` carries a valid signature of its key, which `hother`
        -- excludes
        exact hother key (hid ▸ hkey)
          ⟨nodeId, ts, payload, hclaimed, hts, hpayload, hideal.signed hsig⟩
  | withdraw req =>
    show p ∈ (handleWithdraw S lowercase cfg s.now req s.tracker).2.live s.now b
    obtain hsame | ⟨haccepted, hdone⟩ :=
      handleWithdraw_tracker S lowercase cfg s.now req s.tracker
    · rw [hsame]
      exact hp
    · rw [hdone]
      refine Tracker.mem_live_withdraw hp fun hid => ?_
      have hauthorized := (Bool.and_eq_true_iff.mp haccepted).2
      rw [hrequire] at hauthorized
      obtain ⟨ts, sig, key, payload, hts, -, hkey, hpayload, hsig⟩ :=
        announceAuthorized_eq_true hauthorized
      exact hother key (hid ▸ hkey) ⟨ts, payload, hts, hpayload, hideal.signed hsig⟩
  | get hash exclude =>
    refine Tracker.mem_live.mpr ⟨?_, (Tracker.mem_live.mp hp).2⟩
    show p ∈ (s.tracker.get lowercase s.now hash exclude).2.held b
    rw [Tracker.held_get]
    split
    · exact hp
    · exact (Tracker.mem_live.mp hp).1
  | browse q group selfId limit =>
    show p ∈ (s.tracker.prune s.now).2.live s.now b
    rw [Tracker.live_prune]
    exact hp
  | stats =>
    show p ∈ (s.tracker.prune s.now).2.live s.now b
    rw [Tracker.live_prune]
    exact hp

/-- What a lookup finds in a state: the blob the hash stands for, and its providers. -/
def TrackerState.found (lowercase : Text → Text) (s : TrackerState) (hash : Text) :
    Text × List Provider :=
  (s.tracker.get lowercase s.now hash none).1

/-- A hash a provider of a blob announced it by, which is its BLAKE3 or the SHA-256 that
came with it. -/
def AnnouncedBy (lowercase : Text → Text) (b hash : Text) (p : Provider) : Prop :=
  lowercase hash = b ∨ (lowercase hash = p.sha256 ∧ p.sha256 ≠ [])

/-- **Lookups are not hijacked.** Where signing is required, take any run whose
announced items all fit. A lookup by the BLAKE3 or the SHA-256 that a live provider
announced finds its blob and exactly the live providers of it; and after one more
request, which fits and which the provider did not sign, it still finds the provider. -/
theorem lookups_not_hijacked {Signed : Bytes → Bytes → Prop} (hideal : S.Ideal Signed)
    (hrequire : cfg.requireSigned = true) {start : ℤ} {ops : List TrackerOp}
    (hfits : Along (TrackerState.step S lowercase cfg) (TrackerOp.Fits S lowercase cfg) ops
      (TrackerState.start start))
    {b hash : Text} {p : Provider}
    (hp : p ∈ (ops.foldl (TrackerState.step S lowercase cfg) (TrackerState.start start)).live b)
    (hhash : AnnouncedBy lowercase b hash p) :
    (ops.foldl (TrackerState.step S lowercase cfg) (TrackerState.start start)).found lowercase
        hash =
      (b, (ops.foldl (TrackerState.step S lowercase cfg) (TrackerState.start start)).live b) ∧
    ∀ op, op.Fits S lowercase cfg
        (ops.foldl (TrackerState.step S lowercase cfg) (TrackerState.start start)) →
      (∀ ms, op ≠ .wait ms) →
      (∀ key, decodeNodeId p.nodeId = some key → ¬ op.SignedWith cfg Signed key) →
      p ∈ (((ops ++ [op]).foldl (TrackerState.step S lowercase cfg)
        (TrackerState.start start)).found lowercase hash).2 := by
  have hsound : ∀ {ops : List TrackerOp}, Along (TrackerState.step S lowercase cfg)
      (TrackerOp.Fits S lowercase cfg) ops (TrackerState.start start) →
      (ops.foldl (TrackerState.step S lowercase cfg)
        (TrackerState.start start)).tracker.AliasesSound
          (ops.foldl (TrackerState.step S lowercase cfg) (TrackerState.start start)).now :=
    fun h => h.invariant (I := fun s => s.tracker.AliasesSound s.now)
      (fun _ _ => TrackerState.aliasesSound_step) (Tracker.aliasesSound_empty start)
  refine ⟨(hsound hfits).get_found hp hhash, fun op hop hwait hother => ?_⟩
  have hp' : p ∈ (TrackerState.step S lowercase cfg
      (ops.foldl (TrackerState.step S lowercase cfg) (TrackerState.start start)) op).live b :=
    TrackerState.mem_live_step hideal hrequire hp hwait hother
  have hafter := hsound (Along.append_singleton.mpr ⟨hfits, hop⟩)
  rw [List.foldl_append] at hafter ⊢
  unfold TrackerState.found
  rw [hafter.get_found hp' hhash]
  exact hp'

/-! ## A redirected blob -/

/-- The key of a device that shares a blob, as an example: any key that the scheme takes
will do. -/
def ownerKey : Bytes :=
  ofNumber 32 0x03a107bff3ce10be1d70dd18e74bc09967e4d6309ba50d5f1ddc8664125531b8

/-- The key of another device, which signs for itself only. -/
def otherKey : Bytes :=
  ofNumber 32 0x29acbae141bccaf0b22e1a94d34d0bc7361e526d0bfe12c89794bc9322966dd7

/-- A registry that wants announces to be signed, under a public URL of its own. -/
def sampleConfig : RegistryConfig := ⟨"https://tracker.example".toList, true⟩

/-- An announce of one blob, with a SHA-256, signed by the key it names. -/
def sampleAnnounce (key : Bytes) (node blake3 sha256 sig : Text) : AnnounceReq where
  node := node
  nodeId := some (hexEncode key)
  device := none
  group := none
  items := [⟨blake3, some sha256, "Model".toList, 3, [], [], [], true⟩]
  ts := some 1700000000000
  sig := some sig

/-- What an announce of one blob is signed over, with the time and the address the examples
have throughout. -/
def samplePayload (key : Bytes) (node blake3 : Text) : Bytes :=
  (payloadText AnnounceMethod.announce.name (hexEncode key) 1700000000000 node
    sampleConfig.publicUrl [blake3]).utf8

/-- The owner's signature over its announce of the blob `aa…`, and the other
device's over its announce of `bb…`. -/
def knownAnnounces : List KnownSignature := [
  ⟨ownerKey, samplePayload ownerKey "ta".toList (List.replicate 64 'a'),
    ofNumber 64 0x8d24b1c37ff00937a109e615fc1a8fcc90fd80ee26810a1dcad0b6bf261b7da7748bcafc5a7f84f9ea1706dd5bb074e679ed82cd47bafe5f51f742495b553001,
    ("jSSxw3/wCTehCeYV/BqPzJD9gO4mgQodytC2vyYbfad0i8r8Wn+E+eoXBt1bsHTmee2CzUe6/l9R90JJ" ++
      "W1UwAQ==").toList⟩,
  ⟨otherKey, samplePayload otherKey "tb".toList (List.replicate 64 'b'),
    ofNumber 64 0xb45a2d43705e43ec44f17fdcfc64d56dc5343eb042ad6dadbe59f9ce69c7ae2050a4780d9773a7624a50c6897b4e2473593cd1af8b2420ba085120241260cb09,
    ("tFotQ3BeQ+xE8X/c/GTVbcU0PrBCrW2tvln5zmnHriBQpHgNl3OnYkpQxol7TiRzWTzRr4skILoIUSAk" ++
      "EmDLCQ==").toList⟩]

/-- The owner announces the blob `aa…`, of which the SHA-256 is `cc…`. -/
def ownerAnnounces : TrackerOp :=
  .announce (sampleAnnounce ownerKey "ta".toList (List.replicate 64 'a')
    (List.replicate 64 'c') ((knownAnnounces.map KnownSignature.value).getD 0 []))

/-- The other device announces the blob `bb…` and says that its SHA-256 is this. -/
def otherAnnounces (sha256 : Text) : TrackerOp :=
  .announce (sampleAnnounce otherKey "tb".toList (List.replicate 64 'b') sha256
    ((knownAnnounces.map KnownSignature.value).getD 1 []))

/-- The state after some operations, from a fresh tracker, with the configuration and the
letter case of the examples. -/
def afterTrackerOps (known : List KnownSignature) (ops : List TrackerOp) : TrackerState :=
  ops.foldl (TrackerState.step (.knowing known) toAsciiLowercase sampleConfig)
    (TrackerState.start 1700000000000)

/-- **One announce hides another's blob from everyone.** The owner's record is
live, and a lookup of its blob finds the other device only. -/
theorem lookup_hijacked :
    let s := afterTrackerOps knownAnnounces
      [ownerAnnounces, otherAnnounces (List.replicate 64 'a')]
    (s.live (List.replicate 64 'a')).map Provider.nodeId = [hexEncode ownerKey] ∧
      (s.found toAsciiLowercase (List.replicate 64 'a')).1 = List.replicate 64 'b' ∧
      (s.found toAsciiLowercase (List.replicate 64 'a')).2.map Provider.nodeId =
        [hexEncode otherKey] := by
  decide +kernel

/-- The other device's announce is not signed with the owner's key. -/
theorem otherAnnounces_not_signed (sha256 : Text) :
    ¬ (otherAnnounces sha256).SignedWith sampleConfig (SignedIn knownAnnounces) ownerKey := by
  rintro ⟨nodeId, ts, payload, hclaimed, hts, hpayload, k, hk, hkey, rfl⟩
  have hid : (some (hexEncode otherKey)).filter (fun s => decide (s ≠ [])) =
      some (hexEncode otherKey) := by decide +kernel
  cases hid.symm.trans hclaimed
  cases hts
  have hnone : ∀ k ∈ knownAnnounces, k.key = ownerKey →
      canonicalPayload AnnounceMethod.announce.name (hexEncode otherKey) 1700000000000
        "tb".toList sampleConfig.publicUrl [List.replicate 64 'b'] ≠ some k.message := by
    decide +kernel
  exact hnone k hk hkey hpayload

/-- The owner's blob is found by its SHA-256, and still is when the other device
has announced a SHA-256 of its own. -/
theorem lookup_not_hijacked :
    ∃ p, ((afterTrackerOps knownAnnounces [ownerAnnounces]).found toAsciiLowercase
        (List.replicate 64 'c')) = (List.replicate 64 'a',
          (afterTrackerOps knownAnnounces [ownerAnnounces]).live (List.replicate 64 'a')) ∧
      p ∈ ((afterTrackerOps knownAnnounces
        [ownerAnnounces, otherAnnounces (List.replicate 64 'd')]).found toAsciiLowercase
          (List.replicate 64 'c')).2 := by
  obtain ⟨p, hp, hid, hsha⟩ : ∃ p ∈ (afterTrackerOps knownAnnounces [ownerAnnounces]).live
      (List.replicate 64 'a'), p.nodeId = hexEncode ownerKey ∧
        p.sha256 = List.replicate 64 'c' := by
    decide +kernel
  have hhash : AnnouncedBy toAsciiLowercase (List.replicate 64 'a') (List.replicate 64 'c') p :=
    Or.inr ⟨by rw [hsha]; decide +kernel, by rw [hsha]; exact List.cons_ne_nil _ _⟩
  obtain ⟨hfound, hothers⟩ := lookups_not_hijacked
    (SignatureScheme.knowing_ideal knownAnnounces) rfl (by decide +kernel) hp hhash
  refine ⟨p, hfound, hothers (otherAnnounces (List.replicate 64 'd')) (by decide +kernel)
    (fun ms h => (by cases h)) fun key hkey => ?_⟩
  have howner : decodeNodeId (hexEncode ownerKey) = some ownerKey := by decide +kernel
  cases howner.symm.trans (hid ▸ hkey)
  exact otherAnnounces_not_signed _

end Atlas
