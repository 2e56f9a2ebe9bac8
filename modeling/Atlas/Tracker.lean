import Mathlib.Data.Char
import Mathlib.Data.List.Lex
import Atlas.AnnounceAuth
import Atlas.KeyedTable

/-!
# The tracker

The worldwide content index of the registry: who provides a blob, by BLAKE3, and
an alias from SHA-256 to BLAKE3 for lookups by the other digest. A record is kept
for fifteen minutes after it was announced. Browse metadata is kept per provider,
and a catalog row is derived from the providers of a blob that are live when it
is asked for.

The two tables are hash maps, here lists of entries with distinct keys in
whatever order they are iterated. Lower-casing a text is the standard library's
and goes over all of Unicode; it is a parameter, and nothing here depends on what
it does.
-/

namespace Atlas

open Text

/-- How long a peer's content announcement is trusted before it must
re-announce. -/
def PROVIDER_TTL_MS : ℤ := 15 * 60 * 1000

/-- Someone who offers a file, as it was announced last. -/
structure Provider where
  /-- The current reachable node ticket. -/
  node : Text
  /-- The peer's stable identity, verified on announce; the de-dup key. -/
  nodeId : Text
  device : Text
  group : Option Text
  listable : Bool
  sha256 : Text
  name : Text
  size : ℕ
  quant : Text
  license : Text
  magnet : Text
  expiresAt : ℤ
  deriving DecidableEq, Repr

/-- One item a peer announces: content ids and browse metadata. -/
structure AnnouncedItem where
  blake3 : Text
  sha256 : Option Text
  name : Text
  size : ℕ
  quant : Text
  license : Text
  magnet : Text
  listable : Bool
  deriving DecidableEq, Repr

/-- A browsable catalog row returned to clients: what the providers say of a blob, and how
many they are. -/
structure CatalogRow where
  blake3 : Text
  sha256 : Text
  name : Text
  size : ℕ
  quant : Text
  license : Text
  magnet : Text
  /-- Distinct live peers seeding this, minus yourself. -/
  peers : ℕ
  /-- Distinct live peers advertising a magnet, minus yourself. -/
  btSeeders : ℕ
  devices : List Text
  mine : Bool
  deriving DecidableEq, Repr

/-- What the registry knows of who offers what: providers by BLAKE3, and BLAKE3s by SHA-256. -/
structure Tracker where
  providers : AList fun _ : Text => List Provider
  /-- SHA-256 to BLAKE3. -/
  aliases : AList fun _ : Text => Text

/-- Whether a record is not expired, which it is from the instant of its expiry on. -/
def Provider.isLive (now : ℤ) (p : Provider) : Bool := now < p.expiresAt

namespace Tracker

/-- A tracker that was just started, and knows nobody. -/
def empty : Tracker := ⟨∅, ∅⟩

/-- The records kept of a blob, expired ones among them until they are pruned. -/
def held (t : Tracker) (blake3 : Text) : List Provider := (t.providers.lookup blake3).getD []

/-- The live providers of a blob, in the order in which they announced it. -/
def live (now : ℤ) (t : Tracker) (blake3 : Text) : List Provider :=
  (t.held blake3).filter (Provider.isLive now)

variable (lowercase : Text → Text)

/-! ## Announcing -/

/-- The SHA-256 of an item as it is stored: empty unless it is 64 bytes long. -/
def storedSha256 (it : AnnouncedItem) : Text :=
  ((it.sha256.map lowercase).filter fun s => s.utf8Len = 64).getD []

/-- The record an item makes, for the node that announces it. -/
def record (now : ℤ) (node nodeId : Text) (device group : Option Text) (it : AnnouncedItem) :
    Provider where
  node := node
  nodeId := nodeId
  device := device.getD []
  group := group
  listable := it.listable
  sha256 := storedSha256 lowercase it
  name := it.name
  size := it.size
  quant := it.quant
  license := it.license
  magnet := it.magnet
  expiresAt := now + PROVIDER_TTL_MS

/-- One item of an announce: replace this peer's prior claim, drop what is expired. -/
def announceItem (now : ℤ) (node nodeId : Text) (device group : Option Text) (t : Tracker)
    (it : AnnouncedItem) : Tracker :=
  let b3 := lowercase it.blake3
  let sha := storedSha256 lowercase it
  let v := (t.held b3).filter fun p => p.nodeId ≠ nodeId ∧ p.isLive now
  { providers := t.providers.insert b3
      (v ++ [record lowercase now node nodeId device group it])
    aliases := if sha ≠ [] then t.aliases.insert sha b3 else t.aliases }

/-- Put down every item of an announce, one after another; a later item can so see what an
earlier one has put down. -/
def announce (now : ℤ) (node nodeId : Text) (device group : Option Text)
    (items : List AnnouncedItem) (t : Tracker) : Tracker :=
  items.foldl (announceItem lowercase now node nodeId device group) t

/-! ## Expiry -/

/-- How many peers there are, by their node ids; two tickets of one peer count once. -/
def distinctPeers (v : List Provider) : ℕ := (v.map Provider.nodeId).dedup.length

/-- Drop expired providers, and the keys and aliases that are left without any.
Returns the live distinct-peer count per BLAKE3. -/
def prune (now : ℤ) (t : Tracker) : (AList fun _ : Text => ℕ) × Tracker :=
  let providers := t.providers.filterMapVal fun _ v =>
    let v := v.filter (Provider.isLive now)
    if v = [] then none else some v
  let peersByB3 := providers.filterMapVal fun _ v => some (distinctPeers v)
  (peersByB3, {
    providers := providers
    -- only aliases whose target still has live providers
    aliases := t.aliases.filterMapVal fun _ b3 =>
      if (peersByB3.lookup b3).isSome then some b3 else none })

/-- Live network stats: distinct files shared, distinct peers online, where files and peers
that have expired are removed before they are counted. -/
def stats (now : ℤ) (t : Tracker) : (ℕ × ℕ) × Tracker :=
  let (peersByB3, t) := t.prune now
  ((peersByB3.entries.length, distinctPeers (t.providers.entries.flatMap Sigma.snd)), t)

/-! ## Looking up -/

/-- The blob a query hash stands for: what the aliases say, or the hash itself in lower case. -/
def resolve (t : Tracker) (hash : Text) : Text :=
  let h := lowercase hash
  (t.aliases.lookup h).getD h

/-- Resolve a query hash (BLAKE3 or SHA-256) to the blob and its live providers.
`exclude` drops the caller's own node id, so that a peer never discovers itself. -/
def get (now : ℤ) (hash : Text) (exclude : Option Text) (t : Tracker) :
    (Text × List Provider) × Tracker :=
  let blake3 := t.resolve lowercase hash
  let t := { t with
    providers := t.providers.adjust blake3 fun v => v.filter (Provider.isLive now) }
  ((blake3, (t.held blake3).filter fun p => exclude.all (· ≠ p.nodeId)), t)

/-! ## Browsing -/

/-- The record that expires last, the last of several; an empty list has none. -/
def newest (provs : List Provider) : Option Provider :=
  provs.foldl (fun best p => match best with
    | none => some p
    | some q => if q.expiresAt ≤ p.expiresAt then some p else some q) none

/-- The representative provider for displayed metadata: a listable one if there
is any, and the newest. -/
def representative (provs : List Provider) : Option Provider :=
  let isPublic := provs.any Provider.listable
  (newest (provs.filter fun p => !isPublic || p.listable)).or (newest provs)

/-- The device names of a blob's providers, sorted, each once and without the empty one. -/
def deviceNames (provs : List Provider) : List Text :=
  ((provs.map Provider.device).filter fun d => d ≠ []).dedup.insertionSort (· ≤ ·)

/-- The first magnet that a provider has, if any has one. -/
def firstMagnet (provs : List Provider) : Option Text :=
  (provs.map Provider.magnet).find? fun m => m ≠ []

/-- The catalog row of a blob, if the querier sees it and it matches. -/
def catalogRow (q : Text) (group selfId : Option Text) (peersByB3 : AList fun _ : Text => ℕ)
    (b3 : Text) (provs : List Provider) : Option CatalogRow :=
  let selfIsProvider := selfId.any fun s => provs.any fun p => p.nodeId = s
  let mine := selfIsProvider || (group.isSome && provs.any fun p => p.group = group)
  if !provs.any Provider.listable && !mine then none
  else match representative provs with
    | none => none
    | some rep =>
      if q ≠ [] ∧ ¬ q <:+: lowercase rep.name then none
      else some {
        blake3 := b3
        sha256 := rep.sha256
        name := rep.name
        size := rep.size
        quant := rep.quant
        license := rep.license
        magnet := (firstMagnet provs).getD rep.magnet
        peers := (peersByB3.lookup b3).getD provs.length - selfIsProvider.toNat
        btSeeders := distinctPeers
          (provs.filter fun p => p.magnet ≠ [] ∧ selfId.all (p.nodeId ≠ ·))
        devices := deviceNames provs
        mine := mine }

/-- The order of the catalog: what is mine first, then by peer count, then by name. -/
def rowLe (a b : CatalogRow) : Prop :=
  if a.mine ≠ b.mine then a.mine
  else if a.peers ≠ b.peers then b.peers < a.peers
  else a.name ≤ b.name

instance : DecidableRel rowLe := fun a b =>
  inferInstanceAs (Decidable (if a.mine ≠ b.mine then a.mine
    else if a.peers ≠ b.peers then b.peers < a.peers
    else a.name ≤ b.name))

/-- Browse the catalog, deriving each row from a file's live providers; the answer has the
best rows only, up to the limit that was asked for. -/
def browse (now : ℤ) (q : Text) (group selfId : Option Text) (limit : ℕ) (t : Tracker) :
    List CatalogRow × Tracker :=
  let (peersByB3, t) := t.prune now
  let q := lowercase q
  let selfId := selfId.filter fun s => s ≠ []
  let rows := t.providers.entries.filterMap fun e =>
    catalogRow lowercase q group selfId peersByB3 e.1 e.2
  ((rows.insertionSort rowLe).take limit, t)

/-! ## Withdrawing -/

/-- Drop a peer's provider records. No ids at all withdraw every record of this
node id. -/
def dropRecords (nodeId : Text) (blakes : List Text) (t : Tracker) : Tracker :=
  let drop := fun v : List Provider => v.filter fun p => p.nodeId ≠ nodeId
  { t with
    providers :=
      if blakes = [] then t.providers.filterMapVal fun _ v => some (drop v)
      else blakes.foldl (fun ps b3 => ps.adjust (lowercase b3) drop) t.providers }

/-- Drop a peer's provider records immediately, rather than wait until they expire. -/
def withdraw (now : ℤ) (nodeId : Text) (blakes : List Text) (t : Tracker) : Tracker :=
  if nodeId = [] then t else (prune now (dropRecords lowercase nodeId blakes t)).2

/-! ## What each operation does to the records of a blob -/

variable {lowercase}

theorem live_def (now : ℤ) (t : Tracker) (b : Text) :
    t.live now b = (t.held b).filter (Provider.isLive now) := rfl

theorem mem_live {now : ℤ} {t : Tracker} {b : Text} {p : Provider} :
    p ∈ t.live now b ↔ p ∈ t.held b ∧ p.isLive now = true :=
  List.mem_filter

@[simp] theorem held_empty (b : Text) : empty.held b = [] := rfl

/-- An item replaces the peer's own record of its blob, and touches no other blob. -/
theorem held_announceItem (now : ℤ) (node nodeId : Text) (device group : Option Text)
    (t : Tracker) (it : AnnouncedItem) (b : Text) :
    (announceItem lowercase now node nodeId device group t it).held b =
      if b = lowercase it.blake3 then
        ((t.held b).filter fun p => p.nodeId ≠ nodeId ∧ p.isLive now) ++
          [record lowercase now node nodeId device group it]
      else t.held b := by
  unfold held announceItem
  dsimp only
  by_cases hb : b = lowercase it.blake3
  · rw [if_pos hb, hb, AList.lookup_insert]
    rfl
  · rw [if_neg hb, AList.lookup_insert_ne hb]

/-- The new record of an item is live, and so are the others' old ones. -/
theorem live_announceItem (now : ℤ) (node nodeId : Text) (device group : Option Text)
    (t : Tracker) (it : AnnouncedItem) (b : Text) :
    (announceItem lowercase now node nodeId device group t it).live now b =
      if b = lowercase it.blake3 then
        ((t.live now b).filter fun p => p.nodeId ≠ nodeId) ++
          [record lowercase now node nodeId device group it]
      else t.live now b := by
  rw [live_def, held_announceItem]
  by_cases hb : b = lowercase it.blake3
  · have hrecord : (record lowercase now node nodeId device group it).isLive now = true :=
      decide_eq_true (Int.lt_add_of_pos_right now (by decide))
    rw [if_pos hb, if_pos hb, List.filter_append, List.filter_cons_of_pos hrecord,
      List.filter_nil, live_def, List.filter_filter, List.filter_filter]
    refine congrArg (· ++ _) (List.filter_congr fun p _ => ?_)
    cases p.isLive now <;> simp
  · rw [if_neg hb, if_neg hb, live_def]

/-- What is live later is live now. -/
theorem isLive_of_le {now now' : ℤ} (h : now ≤ now') {p : Provider}
    (hp : p.isLive now' = true) : p.isLive now = true :=
  decide_eq_true (lt_of_le_of_lt h (of_decide_eq_true hp))

/-- **Pruning drops what is expired**, and nothing else. -/
theorem held_prune (now : ℤ) (t : Tracker) (b : Text) :
    (t.prune now).2.held b = t.live now b := by
  show ((AList.filterMapVal _ t.providers).lookup b).getD [] = _
  rw [AList.lookup_filterMapVal, live_def]
  unfold held
  cases t.providers.lookup b with
  | none => rfl
  | some v =>
    show (if v.filter (Provider.isLive now) = [] then none else some _).getD [] = _
    by_cases h : v.filter (Provider.isLive now) = []
    · rw [if_pos h]
      exact h.symm
    · rw [if_neg h]
      rfl

@[simp] theorem live_prune (now : ℤ) (t : Tracker) (b : Text) :
    (t.prune now).2.live now b = t.live now b := by
  rw [live_def, held_prune, live_def, List.filter_filter]
  simp

/-- What has a peer count has live providers, as many as counted. -/
theorem lookup_peersByB3 (now : ℤ) (t : Tracker) (b : Text) :
    (t.prune now).1.lookup b =
      if t.live now b = [] then none else some (distinctPeers (t.live now b)) := by
  show (AList.filterMapVal _ (AList.filterMapVal _ t.providers)).lookup b = _
  rw [AList.lookup_filterMapVal, AList.lookup_filterMapVal, live_def]
  unfold held
  cases t.providers.lookup b with
  | none => rfl
  | some v =>
    show (if v.filter (Provider.isLive now) = [] then none else some _).bind _ = _
    by_cases h : v.filter (Provider.isLive now) = []
    · rw [if_pos h, Option.getD_some, if_pos h]
      rfl
    · rw [if_neg h, Option.getD_some, if_neg h]
      rfl

/-- An alias is kept as long as its blob has a live provider. -/
theorem lookup_aliases_prune (now : ℤ) (t : Tracker) (h : Text) :
    (t.prune now).2.aliases.lookup h =
      (t.aliases.lookup h).filter fun b3 => t.live now b3 ≠ [] := by
  show (AList.filterMapVal _ t.aliases).lookup h = _
  rw [AList.lookup_filterMapVal]
  cases t.aliases.lookup h with
  | none => rfl
  | some b3 =>
    show (if ((t.prune now).1.lookup b3).isSome then some b3 else none) = _
    rw [lookup_peersByB3]
    by_cases hlive : t.live now b3 = []
    · simp [hlive, Option.filter]
    · simp [hlive, Option.filter]

/-- A lookup drops what is expired of the blob it finds. -/
theorem held_get (lowercase : Text → Text) (now : ℤ) (hash : Text) (exclude : Option Text)
    (t : Tracker) (b : Text) :
    (t.get lowercase now hash exclude).2.held b =
      if b = t.resolve lowercase hash then t.live now b else t.held b := by
  show ((AList.adjust _ _ _).lookup b).getD [] = _
  rw [AList.lookup_adjust, live_def]
  unfold held
  by_cases hb : b = t.resolve lowercase hash
  · rw [if_pos hb, if_pos hb]
    cases t.providers.lookup b <;> rfl
  · rw [if_neg hb, if_neg hb, Option.map_id]
    rfl

/-- **What a lookup finds** are the live providers of the blob it resolves to. -/
theorem get_found (now : ℤ) (hash : Text) (exclude : Option Text) (t : Tracker) :
    (t.get lowercase now hash exclude).1 = (t.resolve lowercase hash,
      (t.live now (t.resolve lowercase hash)).filter fun p => exclude.all (· ≠ p.nodeId)) := by
  have hheld := held_get lowercase now hash exclude t (t.resolve lowercase hash)
  rw [if_pos rfl] at hheld
  rw [← hheld]
  rfl

/-- Whether a withdrawal of these ids names a blob; a withdrawal that lists nothing names
every blob of its peer. -/
def Names (lowercase : Text → Text) (blakes : List Text) (b : Text) : Prop :=
  blakes = [] ∨ b ∈ blakes.map lowercase

instance (blakes : List Text) (b : Text) : Decidable (Names lowercase blakes b) :=
  inferInstanceAs (Decidable (blakes = [] ∨ b ∈ blakes.map lowercase))

/-- Dropping a peer's records of some blobs, one blob after another. -/
theorem lookup_foldl_adjust (drop : List Provider → List Provider)
    (hdrop : ∀ v, drop (drop v) = drop v) (blakes : List Text)
    (ps : AList fun _ : Text => List Provider) (b : Text) :
    (blakes.foldl (fun ps b3 => ps.adjust (lowercase b3) drop) ps).lookup b =
      (ps.lookup b).map (if b ∈ blakes.map lowercase then drop else id) := by
  induction blakes generalizing ps with
  | nil => exact (congrFun Option.map_id _).symm
  | cons b3 blakes ih =>
    rw [List.foldl_cons, ih, AList.lookup_adjust, Option.map_map, List.map_cons]
    congr 1
    by_cases hb : b = lowercase b3
    · have hmem : b ∈ lowercase b3 :: blakes.map lowercase := hb ▸ List.mem_cons_self
      rw [if_pos hb, if_pos hmem]
      split
      · exact funext hdrop
      · rfl
    · have hmem : b ∈ lowercase b3 :: blakes.map lowercase ↔ b ∈ blakes.map lowercase :=
        List.mem_cons.trans (or_iff_right hb)
      rw [if_neg hb, Function.comp_id, if_congr hmem rfl rfl]

/-- **A withdrawal drops a peer's records of the blobs it names.** -/
theorem held_dropRecords (nodeId : Text) (blakes : List Text) (t : Tracker) (b : Text) :
    (dropRecords lowercase nodeId blakes t).held b =
      (t.held b).filter fun p => ¬ (Names lowercase blakes b ∧ p.nodeId = nodeId) := by
  have hdrop : ∀ v : List Provider,
      ((v.filter fun p => p.nodeId ≠ nodeId).filter fun p => p.nodeId ≠ nodeId) =
        v.filter fun p => p.nodeId ≠ nodeId := by
    intro v
    rw [List.filter_filter]
    exact congrArg (List.filter · v) (funext fun p => Bool.and_self _)
  have hlookup : (dropRecords lowercase nodeId blakes t).providers.lookup b =
      (t.providers.lookup b).map (if Names lowercase blakes b then
        (fun v => v.filter fun p => p.nodeId ≠ nodeId) else id) := by
    unfold dropRecords
    dsimp only
    by_cases hnil : blakes = []
    · rw [if_pos hnil, AList.lookup_filterMapVal,
        if_pos (show Names lowercase blakes b from Or.inl hnil)]
      cases t.providers.lookup b <;> rfl
    · rw [if_neg hnil, lookup_foldl_adjust _ hdrop]
      exact congrArg (Option.map · _) (if_congr (or_iff_right hnil).symm rfl rfl)
  unfold held
  rw [hlookup]
  cases t.providers.lookup b with
  | none => rfl
  | some v =>
    by_cases hnames : Names lowercase blakes b
    · simp [hnames]
    · simp [hnames]

end Tracker

end Atlas
