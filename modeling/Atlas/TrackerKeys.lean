import Mathlib.Data.Finset.Card
import Mathlib.Data.Finset.Image
import Atlas.TrackerBrowse
import Atlas.TrackerLookup

/-!
# One record for each key

The tracker knows a peer by the text of its node id; whether a request is accepted
goes by the key that the text decodes to. A key has many spellings: hexadecimal
digits in either case, base32 in either case with or without padding, and
whitespace around it. A peer that announces under two of them is two peers to the
tracker.

In every run where nobody does (`TrackerOp.SpelledAlike`), a blob has at most one
live record for each key, the counts of a lookup, of the catalog and of the
statistics are counts of keys, and a withdrawal drops the record of its key exactly if
it spells the key as the record does (`one_record_per_key`).
-/

namespace Atlas

open Text Transition

variable {S : SignatureScheme} {lowercase : Text → Text} {cfg : RegistryConfig}

/-- The key a record was announced with, or nothing where its node id is none. -/
def Provider.key (p : Provider) : Option Bytes := decodeNodeId p.nodeId

/-- How many keys some records were announced with, whatever their spelling. -/
def distinctKeys (v : List Provider) : ℕ := (v.map Provider.key).dedup.length

namespace Tracker

/-! ## The invariant -/

/-- **Every key is known under one spelling**: each live record was announced with
a key, records with the same key have the same node id, and no two records of a
blob have the same node id. -/
structure KeysApart (now : ℤ) (t : Tracker) : Prop where
  decodes : ∀ b, ∀ p ∈ t.live now b, p.key ≠ none
  spelling : ∀ b, ∀ p ∈ t.live now b, ∀ b', ∀ p' ∈ t.live now b', p.key = p'.key →
    p.nodeId = p'.nodeId
  nodup : ∀ b, ((t.live now b).map Provider.nodeId).Nodup

theorem keysApart_empty (now : ℤ) : empty.KeysApart now where
  decodes := by
    intro b p hp
    cases hp
  spelling := by
    intro b p hp
    cases hp
  nodup := fun b => List.nodup_nil

/-- Live records that are some of the old ones are still apart. -/
theorem KeysApart.of_sublist {now now' : ℤ} {t t' : Tracker} (h : t.KeysApart now)
    (hsub : ∀ b, (t'.live now' b).Sublist (t.live now b)) : t'.KeysApart now' where
  decodes := fun b p hp => h.decodes b p ((hsub b).mem hp)
  spelling := fun b p hp b' p' hp' =>
    h.spelling b p ((hsub b).mem hp) b' p' ((hsub b').mem hp')
  nodup := fun b => (h.nodup b).sublist ((hsub b).map Provider.nodeId)

theorem KeysApart.wait {now now' : ℤ} {t : Tracker} (h : t.KeysApart now) (hle : now ≤ now') :
    t.KeysApart now' :=
  h.of_sublist fun _ => List.monotone_filter_right _ fun _ hp => isLive_of_le hle hp

theorem KeysApart.prune {now : ℤ} {t : Tracker} (h : t.KeysApart now) :
    (t.prune now).2.KeysApart now :=
  h.of_sublist fun b => (live_prune now t b).symm ▸ List.Sublist.refl _

theorem KeysApart.get {now : ℤ} {t : Tracker} (h : t.KeysApart now) (hash : Text)
    (exclude : Option Text) : (t.get lowercase now hash exclude).2.KeysApart now := by
  refine h.of_sublist fun b => ?_
  rw [live_def, held_get]
  split
  · exact List.filter_sublist
  · exact List.Sublist.refl _

/-! ## Announcing -/

/-- Every live record with the key of a node id has that node id. -/
def SpelledAs (now : ℤ) (nodeId : Text) (t : Tracker) : Prop :=
  ∀ e ∈ t.providers.entries, ∀ p ∈ e.2, p.isLive now = true → p.key = decodeNodeId nodeId →
    p.nodeId = nodeId

instance (now : ℤ) (nodeId : Text) (t : Tracker) : Decidable (t.SpelledAs now nodeId) :=
  inferInstanceAs (Decidable (∀ e ∈ t.providers.entries, ∀ p ∈ e.2, p.isLive now = true →
    p.key = decodeNodeId nodeId → p.nodeId = nodeId))

theorem SpelledAs.of_live {now : ℤ} {nodeId : Text} {t : Tracker} (h : t.SpelledAs now nodeId)
    {b : Text} {p : Provider} (hp : p ∈ t.live now b) (hkey : p.key = decodeNodeId nodeId) :
    p.nodeId = nodeId := by
  obtain ⟨e, he, -, hmem, hlive⟩ := exists_entry_of_mem_live hp
  exact h e he p hmem hlive hkey

/-- What a peer knows to be spelled its way, of every blob. -/
def LiveSpelledAs (now : ℤ) (nodeId : Text) (t : Tracker) : Prop :=
  ∀ b, ∀ p ∈ t.live now b, p.key = decodeNodeId nodeId → p.nodeId = nodeId

/-- **One item** of an announce under the known spelling. -/
theorem KeysApart.announceItem {now : ℤ} {node nodeId : Text} {device group : Option Text}
    {t : Tracker} {it : AnnouncedItem} (h : t.KeysApart now)
    (hkey : decodeNodeId nodeId ≠ none) (hspelled : t.LiveSpelledAs now nodeId) :
    (Tracker.announceItem lowercase now node nodeId device group t it).KeysApart now ∧
      (Tracker.announceItem lowercase now node nodeId device group t it).LiveSpelledAs now
        nodeId := by
  -- a live record is an old one or the new one
  have hmem : ∀ b, ∀ p ∈ (Tracker.announceItem lowercase now node nodeId device group t
      it).live now b, p ∈ t.live now b ∨ p.nodeId = nodeId := by
    intro b p hp
    rw [live_announceItem] at hp
    split at hp
    · obtain hold | hnew := List.mem_append.mp hp
      · exact Or.inl (List.mem_of_mem_filter hold)
      · obtain rfl := List.mem_singleton.mp hnew
        exact Or.inr rfl
    · exact Or.inl hp
  refine ⟨⟨fun b p hp => ?_, fun b p hp b' p' hp' heq => ?_, fun b => ?_⟩, fun b p hp heq => ?_⟩
  · obtain hold | hid := hmem b p hp
    · exact h.decodes b p hold
    · unfold Provider.key
      rw [hid]
      exact hkey
  · obtain hold | hid := hmem b p hp
    · obtain hold' | hid' := hmem b' p' hp'
      · exact h.spelling b p hold b' p' hold' heq
      · rw [hid']
        exact hspelled b p hold (heq.trans (congrArg decodeNodeId hid'))
    · obtain hold' | hid' := hmem b' p' hp'
      · rw [hid]
        exact (hspelled b' p' hold' (heq.symm.trans (congrArg decodeNodeId hid))).symm
      · rw [hid, hid']
  · rw [live_announceItem]
    split
    · rw [List.map_append, List.map_singleton]
      refine List.nodup_append'.mpr ⟨?_, List.nodup_singleton _, ?_⟩
      · exact (h.nodup b).sublist (List.filter_sublist.map Provider.nodeId)
      · intro s hs hs'
        obtain ⟨p, hp, rfl⟩ := List.mem_map.mp hs
        exact of_decide_eq_true (List.mem_filter.mp hp).2 (List.mem_singleton.mp hs')
    · exact h.nodup b
  · obtain hold | hid := hmem b p hp
    · exact hspelled b p hold heq
    · exact hid

/-- All items of an announce under the known spelling. -/
theorem KeysApart.announce {now : ℤ} {node nodeId : Text} {device group : Option Text}
    {items : List AnnouncedItem} {t : Tracker} (h : t.KeysApart now)
    (hkey : decodeNodeId nodeId ≠ none) (hspelled : t.LiveSpelledAs now nodeId) :
    (t.announce lowercase now node nodeId device group items).KeysApart now := by
  unfold Tracker.announce
  induction items generalizing t with
  | nil => exact h
  | cons it items ih =>
    have hitem : (Tracker.announceItem lowercase now node nodeId device group t it).KeysApart now ∧
        (Tracker.announceItem lowercase now node nodeId device group t it).LiveSpelledAs now
          nodeId := h.announceItem hkey hspelled
    exact ih hitem.1 hitem.2

/-! ## Withdrawing -/

/-- What is live after a withdrawal. -/
theorem live_withdraw {now : ℤ} {nodeId : Text} {blakes : List Text} {t : Tracker}
    (hid : nodeId ≠ []) (b : Text) :
    (t.withdraw lowercase now nodeId blakes).live now b =
      (t.live now b).filter fun p => ¬ (Names lowercase blakes b ∧ p.nodeId = nodeId) := by
  unfold Tracker.withdraw
  rw [if_neg hid, live_prune, live_def, held_dropRecords, live_def, List.filter_filter,
    List.filter_filter]
  exact List.filter_congr fun p _ => Bool.and_comm _ _

theorem KeysApart.withdraw {now : ℤ} {t : Tracker} (h : t.KeysApart now) (nodeId : Text)
    (blakes : List Text) : (t.withdraw lowercase now nodeId blakes).KeysApart now := by
  by_cases hid : nodeId = []
  · unfold Tracker.withdraw
    rw [if_pos hid]
    exact h
  · refine h.of_sublist fun b => ?_
    rw [live_withdraw hid]
    exact List.filter_sublist

/-- **A withdrawal drops the records of its key** from the blobs it names exactly if
they have the same node id. -/
theorem withdraw_drops_key_iff {now : ℤ} {nodeId : Text} {blakes : List Text} {t : Tracker}
    (hid : nodeId ≠ []) :
    (∀ b, Names lowercase blakes b → ∀ p ∈ (t.withdraw lowercase now nodeId blakes).live now b,
        p.key ≠ decodeNodeId nodeId) ↔
      ∀ b, Names lowercase blakes b → ∀ p ∈ t.live now b, p.key = decodeNodeId nodeId →
        p.nodeId = nodeId := by
  refine forall₂_congr fun b hnames => ?_
  constructor
  · intro hgone p hp hkey
    by_contra hne
    refine hgone p ?_ hkey
    rw [live_withdraw hid]
    exact List.mem_filter.mpr ⟨hp, decide_eq_true fun hboth => hne hboth.2⟩
  · intro hspelled p hp hkey
    rw [live_withdraw hid] at hp
    obtain ⟨hlive, hnot⟩ := List.mem_filter.mp hp
    exact of_decide_eq_true hnot ⟨hnames, hspelled p hlive hkey⟩

/-! ## Counting -/

/-- Node ids count as keys where no key has two. -/
theorem distinctPeers_eq_distinctKeys {v : List Provider}
    (h : ∀ p ∈ v, ∀ p' ∈ v, p.key = p'.key → p.nodeId = p'.nodeId) :
    distinctPeers v = distinctKeys v := by
  have himage : (v.map Provider.key).toFinset =
      (v.map Provider.nodeId).toFinset.image decodeNodeId := by
    ext key
    simp only [List.mem_toFinset, List.mem_map, Finset.mem_image, exists_exists_and_eq_and]
    rfl
  unfold distinctPeers distinctKeys
  rw [← List.card_toFinset, ← List.card_toFinset, himage]
  symm
  refine Finset.card_image_of_injOn fun s hs s' hs' heq => ?_
  obtain ⟨p, hp, rfl⟩ := List.mem_map.mp (List.mem_toFinset.mp hs)
  obtain ⟨p', hp', rfl⟩ := List.mem_map.mp (List.mem_toFinset.mp hs')
  exact h p hp p' hp' heq

/-- The count of the peers other than oneself. -/
theorem distinctPeers_others (v : List Provider) (selfId : Option Text) :
    distinctPeers v - (selfId.any fun s => v.any fun p => p.nodeId = s).toNat =
      distinctPeers (v.filter fun p => selfId.all (p.nodeId ≠ ·)) := by
  cases selfId with
  | none =>
    have hall : (v.filter fun p => (none : Option Text).all (p.nodeId ≠ ·)) = v :=
      List.filter_eq_self.mpr fun _ _ => rfl
    rw [hall]
    rfl
  | some s =>
    show distinctPeers v - (v.any fun p => p.nodeId = s).toNat =
      distinctPeers (v.filter fun p => p.nodeId ≠ s)
    have herase : ((v.filter fun p => p.nodeId ≠ s).map Provider.nodeId).toFinset =
        (v.map Provider.nodeId).toFinset.erase s := by
      ext x
      simp only [List.mem_toFinset, List.mem_map, List.mem_filter, decide_eq_true_eq,
        Finset.mem_erase]
      constructor
      · rintro ⟨p, ⟨hp, hne⟩, rfl⟩
        exact ⟨hne, p, hp, rfl⟩
      · rintro ⟨hne, p, hp, rfl⟩
        exact ⟨p, ⟨hp, hne⟩, rfl⟩
    have hmem : s ∈ (v.map Provider.nodeId).toFinset ↔
        (v.any fun p => p.nodeId = s) = true := by
      rw [List.mem_toFinset, List.mem_map, List.any_eq_true]
      simp only [decide_eq_true_eq]
    unfold distinctPeers
    rw [← List.card_toFinset, ← List.card_toFinset, herase, Finset.card_erase_eq_ite]
    by_cases hany : (v.any fun p => p.nodeId = s) = true
    · rw [if_pos (hmem.mpr hany), hany]
      rfl
    · rw [if_neg fun h => hany (hmem.mp h), Bool.eq_false_iff.mpr hany]
      rfl

/-- The peers of a row that are not the one who asks. -/
def others (selfId : Option Text) (v : List Provider) : List Provider :=
  v.filter fun p => (selfId.filter fun s => s ≠ []).all (p.nodeId ≠ ·)

/-- **What the counts of a row count.** -/
theorem counts_of_mem_rows {now : ℤ} {q : Text} {group selfId : Option Text} {t : Tracker}
    {r : CatalogRow} (h : r ∈ t.rows lowercase now q group selfId) :
    r.peers = distinctPeers (others selfId (t.live now r.blake3)) ∧
      r.btSeeders =
        distinctPeers ((others selfId (t.live now r.blake3)).filter fun p => p.magnet ≠ []) := by
  have hrow := catalogRow_of_mem_rows h
  have hcount : ((t.prune now).1.lookup r.blake3).getD (t.live now r.blake3).length =
      distinctPeers (t.live now r.blake3) := by
    rw [lookup_peersByB3]
    by_cases hnil : t.live now r.blake3 = []
    · rw [if_pos hnil, hnil]
      rfl
    · rw [if_neg hnil]
      rfl
  have hseeders : ∀ v : List Provider,
      ((others selfId v).filter fun p => p.magnet ≠ []) = v.filter fun p => p.magnet ≠ [] ∧
        (selfId.filter fun s => s ≠ []).all (p.nodeId ≠ ·) := by
    intro v
    unfold others
    rw [List.filter_filter]
    refine List.filter_congr fun p _ => ?_
    rw [Bool.decide_and, Bool.decide_eq_true]
  unfold catalogRow at hrow
  dsimp only at hrow
  split at hrow
  · cases hrow
  · split at hrow
    · cases hrow
    · split at hrow
      · cases hrow
      · have hr := Option.some.inj hrow
        have hpeers := congrArg CatalogRow.peers hr
        have hbt := congrArg CatalogRow.btSeeders hr
        dsimp only at hpeers hbt
        rw [hcount, distinctPeers_others] at hpeers
        exact ⟨hpeers.symm, by rw [hseeders, hbt]⟩

/-- All live records, of every blob, as pruning leaves them. -/
def allLive (now : ℤ) (t : Tracker) : List Provider :=
  (t.prune now).2.providers.entries.flatMap Sigma.snd

theorem mem_allLive {now : ℤ} {t : Tracker} {p : Provider} (h : p ∈ t.allLive now) :
    ∃ b, p ∈ t.live now b := by
  obtain ⟨⟨b, v⟩, he, hp⟩ := List.mem_flatMap.mp h
  exact ⟨b, eq_live_of_mem_prune he ▸ hp⟩

/-- A blob has at most one live record for each key. -/
theorem KeysApart.length_le_one {now : ℤ} {t : Tracker} (h : t.KeysApart now) (b : Text)
    (key : Bytes) : ((t.live now b).filter fun p => p.key = some key).length ≤ 1 := by
  have hnodup := (h.nodup b).sublist
    ((List.filter_sublist (p := fun p : Provider => p.key = some key)).map Provider.nodeId)
  have hall : ∀ p ∈ (t.live now b).filter fun p => p.key = some key,
      p ∈ t.live now b ∧ p.key = some key :=
    fun p hp => ⟨List.mem_of_mem_filter hp, of_decide_eq_true (List.mem_filter.mp hp).2⟩
  generalize (t.live now b).filter (fun p => p.key = some key) = l at hnodup hall ⊢
  match l with
  | [] => exact Nat.zero_le 1
  | [p] => exact Nat.le_refl 1
  | p :: p' :: l =>
    obtain ⟨hp, hkey⟩ := hall p List.mem_cons_self
    obtain ⟨hp', hkey'⟩ := hall p' (List.mem_cons_of_mem _ List.mem_cons_self)
    have hid := h.spelling b p hp b p' hp' (hkey.trans hkey'.symm)
    exact absurd (hid ▸ List.mem_cons_self) (List.nodup_cons.mp hnodup).1

/-- **All counts are counts of keys**: of a lookup's providers, of a row's peers, and of the
statistics. -/
structure CountsKeys (lowercase : Text → Text) (now : ℤ) (t : Tracker) : Prop where
  get : ∀ hash exclude, (t.get lowercase now hash exclude).1.2.length =
    distinctKeys (t.get lowercase now hash exclude).1.2
  browse : ∀ q group selfId limit, ∀ r ∈ (t.browse lowercase now q group selfId limit).1,
    r.peers = distinctKeys (others selfId (t.live now r.blake3)) ∧
      r.btSeeders =
        distinctKeys ((others selfId (t.live now r.blake3)).filter fun p => p.magnet ≠ [])
  stats : (t.stats now).1.2 = distinctKeys (t.allLive now)

theorem KeysApart.countsKeys {now : ℤ} {t : Tracker} (h : t.KeysApart now) :
    t.CountsKeys lowercase now where
  get := by
    intro hash exclude
    rw [get_found]
    dsimp only
    generalize t.resolve lowercase hash = b
    rw [← distinctPeers_eq_distinctKeys fun p hp p' hp' => h.spelling b p
      (List.mem_of_mem_filter hp) b p' (List.mem_of_mem_filter hp')]
    unfold distinctPeers
    rw [((h.nodup b).sublist (List.filter_sublist.map Provider.nodeId)).dedup, List.length_map]
  browse := by
    intro q group selfId limit r hr
    have hrow : r ∈ t.rows lowercase now q group selfId := by
      rw [browse_eq] at hr
      exact (List.perm_insertionSort _ _).mem_iff.mp (List.mem_of_mem_take hr)
    obtain ⟨hpeers, hbt⟩ := counts_of_mem_rows hrow
    have hlive : ∀ p ∈ others selfId (t.live now r.blake3), p ∈ t.live now r.blake3 :=
      fun p hp => List.mem_of_mem_filter hp
    rw [hpeers, hbt]
    refine ⟨distinctPeers_eq_distinctKeys fun p hp p' hp' => ?_,
      distinctPeers_eq_distinctKeys fun p hp p' hp' => ?_⟩
    · exact h.spelling _ p (hlive p hp) _ p' (hlive p' hp')
    · exact h.spelling _ p (hlive p (List.mem_of_mem_filter hp)) _ p'
        (hlive p' (List.mem_of_mem_filter hp'))
  stats := by
    refine distinctPeers_eq_distinctKeys fun p hp p' hp' => ?_
    obtain ⟨b, hb⟩ := mem_allLive hp
    obtain ⟨b', hb'⟩ := mem_allLive hp'
    exact h.spelling b p hb b' p' hb'

end Tracker

/-! ## Runs -/

/-- An accepted announce was accepted by the signature check, so that its node id is one
whose key has signed it. -/
def TrackerOp.Verified (S : SignatureScheme) (cfg : RegistryConfig) (s : TrackerState) :
    TrackerOp → Prop
  | .announce req => ∀ nodeId ∈ req.accepted S cfg s.now,
    verifyAnnounceAuth S AnnounceMethod.announce.name nodeId req.ts req.sig req.node
      cfg.publicUrl req.itemIds s.now = true
  | _ => True

/-- An announce that stores anything spells its key as the live records do. -/
def TrackerOp.SpelledAlike (S : SignatureScheme) (cfg : RegistryConfig) (s : TrackerState) :
    TrackerOp → Prop
  | .announce req => ∀ nodeId ∈ req.accepted S cfg s.now, req.storedItems ≠ [] →
    s.tracker.SpelledAs s.now nodeId
  | _ => True

instance (s : TrackerState) : DecidablePred (TrackerOp.Verified S cfg s)
  | .wait _ => .isTrue trivial
  | .announce req => inferInstanceAs (Decidable (∀ nodeId ∈ req.accepted S cfg s.now,
    verifyAnnounceAuth S AnnounceMethod.announce.name nodeId req.ts req.sig req.node
      cfg.publicUrl req.itemIds s.now = true))
  | .withdraw _ => .isTrue trivial
  | .get _ _ => .isTrue trivial
  | .browse _ _ _ _ => .isTrue trivial
  | .stats => .isTrue trivial

instance (s : TrackerState) : DecidablePred (TrackerOp.SpelledAlike S cfg s)
  | .wait _ => .isTrue trivial
  | .announce req => inferInstanceAs (Decidable (∀ nodeId ∈ req.accepted S cfg s.now,
    req.storedItems ≠ [] → s.tracker.SpelledAs s.now nodeId))
  | .withdraw _ => .isTrue trivial
  | .get _ _ => .isTrue trivial
  | .browse _ _ _ _ => .isTrue trivial
  | .stats => .isTrue trivial

/-- What the signature check accepts has a node id that decodes. -/
theorem decodes_of_verifyAnnounceAuth {method nodeId : Text} {ts : Option ℤ} {sig : Option Text}
    {ticket audience : Text} {itemIds : List Text} {now : ℤ}
    (h : verifyAnnounceAuth S method nodeId ts sig ticket audience itemIds now = true) :
    decodeNodeId nodeId ≠ none := by
  intro hnone
  unfold verifyAnnounceAuth at h
  split at h
  · unfold verify at h
    rw [hnone] at h
    split at h
    · cases h
    · split at h
      · cases h
      · cases h
  · cases h

/-- **One operation** under the known spellings keeps the keys apart. -/
theorem TrackerState.keysApart_step {s : TrackerState} {op : TrackerOp}
    (h : s.tracker.KeysApart s.now) (hverified : op.Verified S cfg s)
    (halike : op.SpelledAlike S cfg s) :
    (s.step S lowercase cfg op).tracker.KeysApart (s.step S lowercase cfg op).now := by
  cases op with
  | wait ms => exact h.wait (Int.le_add_of_nonneg_right (Int.natCast_nonneg ms))
  | announce req =>
    show (handleAnnounce S lowercase cfg s.now req s.tracker).2.KeysApart s.now
    obtain hsame | ⟨nodeId, haccepted, hdone⟩ :=
      handleAnnounce_tracker S lowercase cfg s.now req s.tracker
    · rwa [hsame]
    · rw [hdone]
      by_cases hitems : req.storedItems = []
      · rw [hitems]
        exact h
      · exact h.announce (decodes_of_verifyAnnounceAuth (hverified nodeId haccepted))
          fun b p hp => (halike nodeId haccepted hitems).of_live hp
  | withdraw req =>
    show (handleWithdraw S lowercase cfg s.now req s.tracker).2.KeysApart s.now
    obtain hsame | ⟨-, hdone⟩ :=
      handleWithdraw_tracker S lowercase cfg s.now req s.tracker
    · rwa [hsame]
    · rw [hdone]
      exact h.withdraw _ _
  | get hash exclude => exact h.get hash exclude
  | browse q group selfId limit => exact h.prune
  | stats => exact h.prune

/-- The state after a run, from a tracker started at the given time. -/
def TrackerState.run (S : SignatureScheme) (lowercase : Text → Text) (cfg : RegistryConfig)
    (start : ℤ) (ops : List TrackerOp) : TrackerState :=
  ops.foldl (TrackerState.step S lowercase cfg) (TrackerState.start start)

/-- **One record for each key.** Take any run whose announces were all verified and
spell their keys as the live records do. Every blob has at most one live record
for each key, all counts are counts of keys, and a withdrawal that is accepted for
a key leaves none of its records in the blobs it names exactly if they spell the
key as it does. -/
theorem one_record_per_key {start : ℤ} {ops : List TrackerOp}
    (hrun : Along (TrackerState.step S lowercase cfg)
      (fun s op => op.Verified S cfg s ∧ op.SpelledAlike S cfg s) ops
      (TrackerState.start start)) :
    (∀ b key, (((TrackerState.run S lowercase cfg start ops).live b).filter fun p =>
        p.key = some key).length ≤ 1) ∧
      (TrackerState.run S lowercase cfg start ops).tracker.CountsKeys lowercase
        (TrackerState.run S lowercase cfg start ops).now ∧
      ∀ req : WithdrawReq,
        req.accepted S cfg (TrackerState.run S lowercase cfg start ops).now = true →
        ∀ key, decodeNodeId req.nodeId = some key →
          ((∀ b, Tracker.Names lowercase req.items b →
              ∀ p ∈ (TrackerState.run S lowercase cfg start (ops ++ [.withdraw req])).live b,
                p.key ≠ some key) ↔
            ∀ b, Tracker.Names lowercase req.items b →
              ∀ p ∈ (TrackerState.run S lowercase cfg start ops).live b, p.key = some key →
                p.nodeId = req.nodeId) := by
  have hafter : ∀ op, TrackerState.run S lowercase cfg start (ops ++ [op]) =
      (TrackerState.run S lowercase cfg start ops).step S lowercase cfg op :=
    fun op => List.foldl_append
  -- the run invariant: two live records of one blob have different keys
  have hapart : (TrackerState.run S lowercase cfg start ops).tracker.KeysApart
      (TrackerState.run S lowercase cfg start ops).now :=
    hrun.invariant (I := fun s => s.tracker.KeysApart s.now)
      (fun _ _ h hop => TrackerState.keysApart_step h hop.1 hop.2)
      (Tracker.keysApart_empty start)
  refine ⟨hapart.length_le_one, hapart.countsKeys, fun req haccepted key hkey => ?_⟩
  rw [hafter]
  generalize TrackerState.run S lowercase cfg start ops = s at haccepted
  have htrim : ¬ req.nodeId.trim = [] := of_decide_eq_true (Bool.and_eq_true_iff.mp haccepted).1
  have hid : req.nodeId ≠ [] := by
    intro hnil
    rw [hnil] at htrim
    exact htrim rfl
  have hdone : (handleWithdraw S lowercase cfg s.now req s.tracker).2 =
      s.tracker.withdraw lowercase s.now req.nodeId req.items := by
    unfold handleWithdraw
    rw [if_neg htrim, if_pos haccepted]
  show (∀ b, _ → ∀ p ∈ (handleWithdraw S lowercase cfg s.now req s.tracker).2.live s.now b, _) ↔ _
  rw [hdone, ← hkey]
  exact Tracker.withdraw_drops_key_iff hid

/-! ## A key with two spellings -/

/-- The owner's key in upper-case digits, which is another text and the same key. -/
def ownerUppercase : Text := (hexEncode ownerKey).map Char.toUpper

/-- The owner's signatures over an announce under either spelling of its key, and
over a withdrawal. -/
def knownSpellings : List KnownSignature := knownAnnounces.take 1 ++ [
  ⟨ownerKey, (payloadText AnnounceMethod.announce.name ownerUppercase 1700000000000 "ta".toList
      sampleConfig.publicUrl [List.replicate 64 'a']).utf8,
    ofNumber 64 0x30112da4229cfa0b41f1ba27ff114b5bb948e3e59bca65d64cac842c14dbfc46b042a702b98740f8926915991eedad3c88ab3794b229677d67728b78bba8b102,
    ("MBEtpCKc+gtB8bon/xFLW7lI4+WbymXWTKyELBTb/EawQqcCuYdA+JJpFZke7a08iKs3lLIpZ31ncot4" ++
      "u6ixAg==").toList⟩,
  ⟨ownerKey, (payloadText AnnounceMethod.withdraw.name (hexEncode ownerKey) 1700000000000 []
      sampleConfig.publicUrl [List.replicate 64 'a']).utf8,
    ofNumber 64 0xf19b46fde0fc1a627bee4fe98f48c617a3c8ffb4b0c94de8ac7c1cb21b0e5e689c119502665924346cbe941fdf2e310993cc8bf647995205304731c3ca67540e,
    ("8ZtG/eD8GmJ77k/pj0jGF6PI/7SwyU3orHwcshsOXmicEZUCZlkkNGy+lB/fLjEJk8yL9keZUgUwRzHD" ++
      "ymdUDg==").toList⟩]

/-- The owner announces the blob `aa…` under a spelling of its key. -/
def ownerAnnouncesAs (nodeId : Text) (sig : ℕ) : TrackerOp :=
  .announce { sampleAnnounce ownerKey "ta".toList (List.replicate 64 'a') (List.replicate 64 'c')
    ((knownSpellings.map KnownSignature.value).getD sig []) with nodeId := some nodeId }

/-- The owner withdraws the blob `aa…`, under the key's lower-case spelling. -/
def ownerWithdrawal : WithdrawReq where
  nodeId := hexEncode ownerKey
  items := [List.replicate 64 'a']
  ts := some 1700000000000
  sig := some ((knownSpellings.map KnownSignature.value).getD 2 [])

/-- **One device is two peers.** Announced under both spellings of its key, a blob
has two live records of that key, the catalog and the statistics count two peers, and
the withdrawal under one spelling leaves the other. -/
theorem one_key_counted_twice :
    let s := afterTrackerOps knownSpellings
      [ownerAnnouncesAs (hexEncode ownerKey) 0, ownerAnnouncesAs ownerUppercase 1]
    ((s.live (List.replicate 64 'a')).map Provider.key = [some ownerKey, some ownerKey]) ∧
      (s.tracker.browse toAsciiLowercase s.now [] none none 100).1.map CatalogRow.peers = [2] ∧
      (s.tracker.stats s.now).1 = (1, 2) ∧
      ownerWithdrawal.accepted (.knowing knownSpellings) sampleConfig s.now = true ∧
      (((s.step (.knowing knownSpellings) toAsciiLowercase sampleConfig
        (.withdraw ownerWithdrawal)).live (List.replicate 64 'a')).map Provider.key =
          [some ownerKey]) := by
  decide +kernel

/-- A device that announces twice under the same spelling is one peer, and its
withdrawal drops it. -/
theorem one_key_counted_once :
    ((((afterTrackerOps knownSpellings [ownerAnnouncesAs (hexEncode ownerKey) 0,
        ownerAnnouncesAs (hexEncode ownerKey) 0]).live (List.replicate 64 'a')).filter fun p =>
          p.key = some ownerKey).length ≤ 1) ∧
      ∀ p ∈ (afterTrackerOps knownSpellings [ownerAnnouncesAs (hexEncode ownerKey) 0,
        ownerAnnouncesAs (hexEncode ownerKey) 0, .withdraw ownerWithdrawal]).live
          (List.replicate 64 'a'), p.key ≠ some ownerKey := by
  have hrun : Along (TrackerState.step (.knowing knownSpellings) toAsciiLowercase sampleConfig)
      (fun s op => op.Verified (.knowing knownSpellings) sampleConfig s ∧
        op.SpelledAlike (.knowing knownSpellings) sampleConfig s)
      [ownerAnnouncesAs (hexEncode ownerKey) 0, ownerAnnouncesAs (hexEncode ownerKey) 0]
      (TrackerState.start 1700000000000) := by
    decide +kernel
  obtain ⟨hone, -, hwithdraw⟩ := one_record_per_key hrun
  refine ⟨hone _ _, (hwithdraw ownerWithdrawal (by decide +kernel) ownerKey
    (by decide +kernel)).mpr (fun b hb => ?_) _ (by decide +kernel)⟩
  have hnamed : b = List.replicate 64 'a' := by
    obtain hnil | hmem := hb
    · cases hnil
    · exact List.mem_singleton.mp hmem
  rw [hnamed]
  decide +kernel

end Atlas
