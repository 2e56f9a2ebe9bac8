import Atlas.Commit
import Atlas.HttpRange
import Atlas.LeafReference
import Atlas.PeerDiscovery

/-!
# Attempts at a server that has the file

A server that has the file an artifact describes cannot be held against the artifact, whatever
becomes of its connections: each attempt asks for what is missing, verifies what comes as a
beginning of the file, and keeps it for the next. An attempt fails only if the rest does not
arrive (`streamOnce_mirror`), and the partial is a beginning of the file at all times.
-/

namespace Atlas

open Text Program

variable {D : Digests} {t : Target} {b : Bytes} {d : Disk}

/-- **The artifact is this file**: it is accepted as a whole, its chunk tree is the file's own,
and it can be stored under its BLAKE3. -/
structure Suits (D : Digests) (t : Target) (b : Bytes) : Prop where
  accepted : Accepted D t.artifact b
  tree : ∀ tree, t.chunkTree = some tree → 0 < tree.leafSize ∧
    (blocks tree.leafSize b).map (leafHash D) = tree.leaves
  named : Cas.blobPath (hexEncode (D.blake3 b)) = .ok (hexEncode (D.blake3 b))

/-- The partial is a beginning of the file, or there is none. -/
def Beginning (t : Target) (b : Bytes) (d : Disk) : Prop :=
  ∀ file, d.temps t.temp = some file → bytesOf file <+: b

/-! ## Verifying a beginning of the file -/

namespace Suits

variable {v : StreamingVerifier} {x data : Bytes}

theorem total_eq (h : Suits D t b) : t.total = b.length := h.accepted.size.symm

/-- A block of the file has its recorded hash. -/
theorem blockAgrees (h : Suits D t b) {tree : ChunkTree} (htree : t.chunkTree = some tree)
    {i : ℕ} (hi : i * tree.leafSize < b.length) : BlockAgrees D tree b i := by
  obtain ⟨hpos, hleaves⟩ := h.tree tree htree
  rw [blockAgrees_iff, ← hleaves, List.getElem?_map, getElem?_blocks hpos, if_pos hi]
  rfl

/-- **No beginning of the file is refused.** -/
theorem feed (h : Suits D t b) (hfed : t.fresh.Fed D x v) (hle : x ++ data <+: b) :
    ∃ v', v.feed D data = .ok v' := by
  cases htree : t.chunkTree with
  | none =>
    have hnone : v.leafCheck = none := hfed.leafCheck_none (by
      show t.chunkTree.map LeafCheck.new = none
      rw [htree]
      rfl)
    exact ⟨_, StreamingVerifier.feed_of_leafCheck_none hnone data⟩
  | some tree =>
    obtain ⟨hpos, -⟩ := h.tree tree htree
    have hfed' := hfed
    unfold Target.fresh at hfed'
    rw [htree] at hfed'
    obtain ⟨c, hcheck, rfl, hc⟩ := hfed'.leafConsumed hpos
    cases hfeed : v.feed D data with
    | ok v' => exact ⟨v', rfl⟩
    | error e =>
      obtain ⟨i, hlen, hfirst, -⟩ := c.feed_error D v.what data x hc
        (StreamingVerifier.feed_eq_error hcheck hfeed)
      obtain ⟨rest, rfl⟩ := hle
      refine absurd ((blockAgrees_append hlen rest).mp (h.blockAgrees htree ?_)) hfirst.differs
      rw [List.length_append]
      exact Nat.lt_add_right _ hfirst.reached

/-- **The whole file passes the checks at the end**, under its own digests. -/
theorem finish (h : Suits D t b) (hfed : t.fresh.Fed D b v) :
    ∃ got, v.finish D = .ok got ∧ got.blake3 = hexEncode (D.blake3 b) ∧
      got.sha256 = hexEncode (D.sha256 b) := by
  obtain ⟨got, hgot⟩ := StreamingVerifier.finishDigests_content hfed.consumed
    h.accepted.digests (fun _ => h.accepted.size) h.accepted.git
  have hfinish : v.finish D = .ok got := by
    unfold StreamingVerifier.finish
    cases htree : t.chunkTree with
    | none =>
      have hnone : v.leafCheck = none := hfed.leafCheck_none (by
        show t.chunkTree.map LeafCheck.new = none
        rw [htree]
        rfl)
      rw [hnone]
      exact hgot
    | some tree =>
      obtain ⟨hpos, hleaves⟩ := h.tree tree htree
      have hfed' := hfed
      unfold Target.fresh at hfed'
      rw [htree] at hfed'
      obtain ⟨c, hcheck, rfl, hc⟩ := hfed'.leafConsumed hpos
      rw [hcheck]
      dsimp only
      rw [(StreamingVerifier.finishLeaves_spec v.what hc).1.mpr hleaves]
      exact hgot
  obtain ⟨-, -, hb, hs⟩ := StreamingVerifier.finish_eq_ok hfed.consumed hfinish
  exact ⟨got, hfinish, hb, hs⟩

/-- A beginning of the file that was kept is validated. -/
theorem readPrefix (h : Suits D t b) {polls : ℕ → Bool} (hpolls : ∀ n, polls n = false)
    {file : Bytes} {remaining reads : ℕ} (hfed : t.fresh.Fed D x v)
    (hle : x ++ file.take remaining <+: b) (hlen : remaining ≤ file.length) :
    ∃ v', Atlas.readPrefix D polls v file remaining reads = .ok (some v') := by
  induction v, file, remaining, reads using readPrefix.induct D polls generalizing x with
  | case1 v file reads =>
    rw [Atlas.readPrefix, if_pos rfl]
    exact ⟨v, rfl⟩
  | case2 v file remaining reads h0 hpoll =>
    rw [hpolls] at hpoll
    cases hpoll
  | case3 v file remaining reads h0 hpoll buf =>
    rename_i hbuf
    have hpos : 0 < READ_BUFFER := by decide
    have hnil := congrArg List.length hbuf
    rw [List.length_take, List.length_nil] at hnil
    omega
  | case4 v file remaining reads h0 hpoll buf hbuf e =>
    rename_i hfeed
    have hsplit : buf <+: file.take remaining :=
      List.take_prefix_take_left (Nat.min_le_right READ_BUFFER remaining)
    obtain ⟨v', hv'⟩ := h.feed hfed (((List.prefix_append_right_inj x).mpr hsplit).trans hle)
    rw [hv'] at hfeed
    cases hfeed
  | case5 v file remaining reads h0 hpoll buf hbuf v₁ hfeed =>
    rename_i ih
    rw [Atlas.readPrefix, if_neg h0, if_neg hpoll, if_neg hbuf]
    simp only [buf] at hfeed ih
    rw [hfeed]
    have hmin : (file.take (min READ_BUFFER remaining)).length = min READ_BUFFER remaining := by
      rw [List.length_take]
      omega
    have hsplit : file.take remaining = file.take (min READ_BUFFER remaining) ++
        (file.drop (min READ_BUFFER remaining)).take (remaining - min READ_BUFFER remaining) := by
      rw [← List.take_add, Nat.add_sub_cancel' (Nat.min_le_right _ _)]
    rw [hsplit, ← List.append_assoc] at hle
    rw [hmin] at ih ⊢
    refine ih (hfed.feed hfeed) hle ?_
    rw [List.length_drop]
    omega

end Suits

/-! ## Opening -/

/-- Where an attempt asks its stream to start: behind the partial it resumes, once that is
validated. -/
def resumeFrom (D : Digests) (t : Target) (polls : ℕ → Bool) (d : Disk) : ℕ :=
  match (claimPartial t >>= prepareResume D t polls) d with
  | (.ok (_, start), _) => start
  | _ => 0

/-- What is resumed is not the whole artifact. -/
theorem length_resumable_lt (htotal : 0 < t.total) (d : Disk) :
    (resumable t d).length < t.total := by
  unfold resumable
  dsimp only
  split
  · rename_i hfits
    exact hfits.2
  · exact htotal

theorem Beginning.resumable (hd : Beginning t b d) : bytesOf (resumable t d) <+: b := by
  unfold Atlas.resumable
  dsimp only
  split
  · cases hfile : d.temps t.temp with
    | none => exact List.nil_prefix
    | some file => exact hd file hfile
  · exact List.nil_prefix

/-- A partial that is a beginning of the file is resumed, all of it. -/
theorem Suits.prepareResume (h : Suits D t b) (hd : Beginning t b d) {polls : ℕ → Bool}
    (hpolls : ∀ n, polls n = false) :
    ∃ v, Atlas.prepareResume D t polls (resumable t d).length (claimed t d) =
      (.ok (v, (resumable t d).length), claimed t d) := by
  unfold Atlas.prepareResume
  by_cases h0 : (resumable t d).length = 0
  · rw [if_pos h0, h0]
    exact ⟨t.fresh, rfl⟩
  · rw [if_neg h0, bind_apply, get_apply, andThen_ok, claimed_temp]
    cases hfile : d.temps t.temp with
    | none =>
      refine absurd ?_ h0
      unfold Atlas.resumable
      rw [hfile]
      rfl
    | some file =>
      have hlen : (bytesOf (Atlas.resumable t d)).length = (Atlas.resumable t d).length :=
        List.length_map _
      have hbegins : [] ++ (bytesOf (Atlas.resumable t d)).take (Atlas.resumable t d).length
          <+: b := by
        rw [List.nil_append, ← hlen, List.take_length]
        exact hd.resumable
      have hread : ∃ v, Atlas.readPrefix D polls t.fresh (bytesOf (Atlas.resumable t d))
          (Atlas.resumable t d).length 0 = .ok (some v) :=
        h.readPrefix hpolls .nil hbegins hlen.ge
      obtain ⟨v, hv⟩ := hread
      dsimp only [Option.map_some]
      rw [hv]
      exact ⟨v, rfl⟩

theorem Suits.resumeFrom_eq (h : Suits D t b) (hd : Beginning t b d) {polls : ℕ → Bool}
    (hpolls : ∀ n, polls n = false) : resumeFrom D t polls d = (resumable t d).length := by
  obtain ⟨v, hv⟩ := h.prepareResume hd hpolls
  unfold resumeFrom
  rw [bind_apply, claimPartial_eq, andThen_ok, hv]

/-- An attempt whose adapter fails fails with what it reports. -/
theorem Suits.openStream_error (h : Suits D t b) (hd : Beginning t b d) {attempt : Attempt}
    (hpolls : ∀ n, attempt.cancelPolls n = false) {e : AdapterError}
    (hopened : attempt.opened = .error e) :
    openStream D t attempt d = (.err e.error, claimed t d) := by
  obtain ⟨v, hv⟩ := h.prepareResume hd hpolls
  unfold openStream
  rw [bind_apply, claimPartial_eq, andThen_ok, bind_apply, hv, andThen_ok]
  dsimp only
  rw [hopened]
  rfl

/-- **An attempt whose adapter succeeds starts where the stream does**, with what precedes that
of the partial. -/
theorem Suits.openStream_ok (h : Suits D t b) (hd : Beginning t b d) {attempt : Attempt}
    (hpolls : ∀ n, attempt.cancelPolls n = false) {opening : Opening}
    (hopened : attempt.opened = .ok opening) :
    ∃ st d₁ file, openStream D t attempt d = (.ok (opening, st), d₁) ∧ InStep D t file st d₁ ∧
      bytesOf file <+: b ∧ file.length = opening.effectiveStart (resumable t d).length := by
  have hspec := openStream_spec D t attempt d
  have hmin : min (opening.effectiveStart (resumable t d).length) t.total =
      opening.effectiveStart (resumable t d).length := by
    rcases opening.effectiveStart_eq (resumable t d).length with heq | heq
    · rw [heq, min_length_resumable]
    · rw [heq, Nat.zero_min]
  obtain ⟨v, hv⟩ := h.prepareResume hd hpolls
  obtain ⟨st, d₁, hrun, hdone⟩ : ∃ st d₁, openStream D t attempt d = (.ok (opening, st), d₁) ∧
      st.bytesDone = opening.effectiveStart (resumable t d).length := by
    unfold openStream
    rw [bind_apply, claimPartial_eq, andThen_ok, bind_apply, hv, andThen_ok]
    dsimp only
    rw [hopened]
    dsimp only
    rw [hmin, bind_apply]
    unfold realign
    by_cases hne : opening.effectiveStart (resumable t d).length ≠ (resumable t d).length
    · have hzero := (opening.effectiveStart_eq (resumable t d).length).resolve_left hne
      rw [if_pos hne, hzero]
      exact ⟨_, _, rfl, rfl⟩
    · rw [if_neg hne]
      exact ⟨_, _, rfl, rfl⟩
  obtain ⟨file, hin⟩ := openStream_inStep hrun
  rw [hrun] at hspec
  refine ⟨st, d₁, file, hrun, hin, ?_, hin.length.trans hdone⟩
  cases hspec with
  | @opened _ kept v' _ hkept _ =>
    have hfile : file = kept := Option.some.inj (hin.temp.symm.trans (Function.update_self ..))
    rw [hfile]
    obtain rfl | rfl := hkept
    · exact hd.resumable
    · exact List.nil_prefix

/-! ## The stream -/

/-- Every piece of a stream arrives, and none of them is an error. -/
def Unbroken {ε : Type} (items : List (Except ε Bytes)) : Prop :=
  ∀ item ∈ items, item.toBool = true

/-- Every failure of a stream is one that is worth another attempt. -/
def Retriable (items : List (Except AdapterError Bytes)) : Prop :=
  ∀ e, .error e ∈ items → e.error.isRetriable = true

theorem retriable_streamItem (sourceId : Text) (body : List (Except Text Bytes)) :
    Retriable (body.map (streamItem sourceId)) := by
  intro e he
  obtain ⟨item, -, heq⟩ := List.mem_map.mp he
  cases item with
  | ok chunk => cases heq
  | error message =>
    cases heq
    rfl

/-- **What the loop keeps**: the temp and what is still to come are a beginning of the file,
and, exactly if the stream delivers the rest (`C`), all of it. -/
structure Completing (b : Bytes) (C : Prop) (evs : List StreamEvent) (file : List Cell) :
    Prop where
  items : ∃ items, evs = items.map undisturbed ∧ Retriable items ∧
    bytesOf file ++ arrived items <+: b ∧
    (C ↔ Unbroken items ∧ bytesOf file ++ arrived items = b)

/-- How an attempt fails once its stream is open: retriably, with the partial still a
beginning of the file and the commit condition not met. -/
def Broke (t : Target) (b : Bytes) (C : Prop) (e : Error) (d : Disk) : Prop :=
  e.isRetriable = true ∧ Beginning t b d ∧ ¬ C

/-- A piece that arrives joins the temp. -/
theorem Completing.next {C : Prop} {ev : StreamEvent} {evs : List StreamEvent}
    {file : List Cell} (hH : Completing b C (ev :: evs) file) {chunk : Bytes}
    (hitem : ev.item = .ok chunk) (sourceId : Text) :
    bytesOf file ++ chunk <+: b ∧ Completing b C evs (file ++ cellsBy sourceId chunk) := by
  obtain ⟨items, hevs, hretriable, hbegins, hC⟩ := hH.items
  cases items with
  | nil => cases hevs
  | cons item items =>
    obtain ⟨rfl, rfl⟩ := List.cons.inj hevs
    obtain rfl : item = .ok chunk := hitem
    rw [show arrived (Except.ok chunk :: items) = chunk ++ arrived items from rfl,
      ← List.append_assoc] at hbegins hC
    refine ⟨(List.prefix_append _ _).trans hbegins,
      ⟨items, rfl, fun e he => hretriable e (List.mem_cons_of_mem _ he), ?_, ?_⟩⟩
    · rw [bytesOf_append]
      exact hbegins
    · rw [bytesOf_append, hC]
      refine and_congr ⟨fun hall item hitem => hall item (List.mem_cons_of_mem _ hitem),
        fun hall item hitem => ?_⟩ Iff.rfl
      obtain rfl | hitem := List.mem_cons.mp hitem
      · rfl
      · exact hall item hitem

/-- **One turn of the loop**: a piece that arrives is written, and a stream that breaks was
not to deliver the rest. -/
theorem Suits.streamStep (h : Suits D t b) {C : Prop} {ceiling : Option ℕ}
    (hceiling : ceiling.isSome → t.total = 0) {ev : StreamEvent} {evs : List StreamEvent}
    {st : StreamState} {file : List Cell} {d' : Disk} {r : Exit Error StreamState}
    (hH : Completing b C (ev :: evs) file) (hin : InStep D t file st d)
    (hspec : StepSpec D t ceiling st ev file d (r, d')) :
    (∃ st' file', r = .ok st' ∧ d'.temps t.temp = some file' ∧ Completing b C evs file') ∨
      ∃ e, r = .err e ∧ Broke t b C e d' := by
  obtain ⟨items, hevs, hretriable, hbegins, hC⟩ := hH.items
  cases items with
  | nil => cases hevs
  | cons item items =>
    obtain ⟨rfl, hrest⟩ := List.cons.inj hevs
    have hbytes : (bytesOf file).length = st.bytesDone := by
      rw [bytesOf, List.length_map, hin.length]
    have hnext : ∀ {chunk : Bytes}, (undisturbed item).item = .ok chunk →
        bytesOf file ++ chunk <+: b ∧ Completing b C evs (file ++ cellsBy t.sourceId chunk) :=
      fun hitem => hH.next hitem t.sourceId
    -- an honest mirror can only break: every refusal of `StepSpec` contradicts the prefix of the
    -- blob it sends
    cases hspec with
    | cancelled hc => cases hc
    | @interrupted e _ hitem =>
      have hitem' : item = .error e := hitem
      refine Or.inr ⟨_, rfl, hretriable e (hitem' ▸ List.mem_cons_self), ?_, fun hc => ?_⟩
      · intro file' hfile'
        rw [hin.temp] at hfile'
        cases hfile'
        exact (List.prefix_append _ _).trans hbegins
      · have hall := (hC.mp hc).1 item List.mem_cons_self
        rw [hitem'] at hall
        cases hall
    | @refused chunk e _ hitem he =>
      have hfit := (hnext hitem).1.length_le
      rw [List.length_append, hbytes] at hfit
      cases he with
      | overlong hover => exact absurd hover.2 (by rw [h.total_eq]; omega)
      | @noSpace c hceil hc =>
        have hzero : t.total = 0 := hceiling (by rw [hceil]; rfl)
        rw [h.total_eq] at hzero
        omega
      | leaf hfeed =>
        obtain ⟨v', hv'⟩ := h.feed hin.fed (hnext hitem).1
        rw [hv'] at hfeed
        cases hfeed
    | failed _ _ hw => cases hw
    | died _ _ hw => cases hw
    | written _ hitem => exact Or.inl ⟨_, _, rfl, received_temp .., (hnext hitem).2⟩
    | @refreshed chunk _ _ hitem =>
      exact Or.inl ⟨_, _, rfl, received_temp t st file chunk chunk d, (hnext hitem).2⟩

/-- **The loop**: what is left at its end is a beginning of the file, all of it exactly if the
stream delivered the rest. -/
theorem Suits.foldlM_streamStep (h : Suits D t b) {C : Prop} {ceiling : Option ℕ}
    (hceiling : ceiling.isSome → t.total = 0) {evs : List StreamEvent} {st : StreamState}
    {file : List Cell} (hH : Completing b C evs file) (hin : InStep D t file st d) :
    (∃ st' d' file', evs.foldlM (Atlas.streamStep D t ceiling) st d = (.ok st', d') ∧
      InStep D t file' st' d' ∧ bytesOf file' <+: b ∧ (C ↔ bytesOf file' = b)) ∨
      ∃ e d', evs.foldlM (Atlas.streamStep D t ceiling) st d = (.err e, d') ∧
        Broke t b C e d' := by
  have hloop := foldlM_streamStep_rule
    (H := fun evs _ file _ => Completing b C evs file)
    (E := fun r d => ∃ e, r = .err e ∧ Broke t b C e d)
    (fun ev evs st file d r d' hH hin hs => by
      obtain ⟨st', file', rfl, hfile', hnext⟩ | ⟨e, rfl, hbroke⟩ :=
        h.streamStep hceiling hH hin hs
      · intro file'' hfile''
        rw [hfile'] at hfile''
        cases hfile''
        exact hnext
      · exact ⟨e, rfl, hbroke⟩) evs hin hH
  generalize evs.foldlM (Atlas.streamStep D t ceiling) st d = out at hloop
  rcases out with ⟨st' | e | _, d'⟩
  · obtain ⟨file', hin', hdone⟩ := hloop
    obtain ⟨items, hevs, -, hbegins, hC⟩ := hdone.items
    obtain rfl : items = [] := List.map_eq_nil_iff.mp hevs.symm
    rw [show arrived ([] : List (Except AdapterError Bytes)) = [] from rfl,
      List.append_nil] at hbegins hC
    refine Or.inl ⟨st', d', file', rfl, hin', hbegins, hC.trans ⟨fun hc => hc.2, fun hb => ?_⟩⟩
    exact ⟨fun item hitem => (by cases hitem), hb⟩
  · obtain ⟨e', he, hbroke⟩ := hloop
    cases he
    exact Or.inr ⟨e, d', rfl, hbroke⟩
  · obtain ⟨e', he, -⟩ := hloop
    cases he

/-! ## The attempt -/

/-- **The whole file is committed**, under its own digests. -/
theorem Suits.commitBlob (h : Suits D t b) (hinj : Function.Injective D.blake3)
    (hsound : CasSound D d.cache) {file : List Cell} (htemp : d.temps t.temp = some file)
    (hfile : bytesOf file = b) {hashes : Hashes} (hb : hashes.blake3 = hexEncode (D.blake3 b))
    (hs : hashes.sha256 = hexEncode (D.sha256 b)) :
    ∃ m d', Cas.commitBlob t.temp hashes t.total d = (.ok m, d') ∧
      Committed D (· = b) d.cache d'.cache m := by
  have hsize : t.total = file.length := by
    rw [h.total_eq, ← hfile, bytesOf, List.length_map]
  have hpost := commitBlob_commits hinj hsound htemp (hfile ▸ hb) (hfile ▸ hs) hsize
  have hok : ∃ m d', Cas.commitBlob t.temp hashes t.total d = (.ok m, d') := by
    unfold Cas.commitBlob
    rw [bind_apply, hb, h.named, ofExcept_ok, andThen_ok, bind_apply, get_apply, andThen_ok]
    dsimp only
    cases d.cache.blobs (hexEncode (D.blake3 b)) with
    | some other =>
      dsimp only
      rw [bind_apply, modify_apply, andThen_ok]
      cases d.cache.metas (hexEncode (D.blake3 b)) with
      | some existing => exact ⟨_, _, rfl⟩
      | none => exact ⟨_, _, rfl⟩
    | none =>
      dsimp only
      rw [htemp]
      exact ⟨_, _, rfl⟩
  obtain ⟨m, d', hrun⟩ := hok
  rw [hrun, hfile] at hpost
  exact ⟨m, d', hrun, hpost⟩

namespace Mirror

/-- What the mirror makes of the `request`-th request for the rest of a file, as the adapter
reports it. -/
def opens (m : Mirror b) (sourceId : Text) (request start : ℕ) : Except AdapterError Opened :=
  HttpClient.openUrl sourceId (resumeRange start) (m.answer request (resumeRange start))

/-- An attempt at the mirror, made while nobody interrupts and the disk works. -/
def attempt (m : Mirror b) (D : Digests) (t : Target) (request : ℕ) (availableSpace : Option ℕ)
    (now : ℕ) (d : Disk) : Attempt :=
  let start := resumeFrom D t (fun _ => false) d
  { cancelPolls := fun _ => false
    opened := (m.opens t.sourceId request start).map fun o => o.opening start availableSpace
    now := now }

/-- The rest of the file arrives from where the connection starts, unbroken and complete. -/
def Delivers (m : Mirror b) (sourceId : Text) (request start : ℕ) : Prop :=
  ∃ o, m.opens sourceId request start = .ok o ∧ Unbroken o.stream ∧
    arrived o.stream = b.drop o.effectiveStart

end Mirror

/-- What a failed attempt at a mirror leaves: an error that blames nobody, a partial that
can be resumed, and the cache as it was. -/
structure Interrupted (t : Target) (b : Bytes) (d : Disk) (e : Error) (d' : Disk) : Prop where
  blameless : e.blames = false
  uncancelled : e ≠ .cancelled
  beginning : Beginning t b d'
  cache : d'.cache = d.cache

/-- An error that is worth another attempt blames nobody, and is not the user's doing. -/
theorem Error.blameless_of_isRetriable {e : Error} (h : e.isRetriable = true) :
    e.blames = false ∧ e ≠ .cancelled := by
  constructor
  · unfold Error.isRetriable at h
    rw [Bool.and_eq_true, Bool.not_eq_true'] at h
    exact h.1
  · rintro rfl
    cases h

/-- The adapter does not report an interruption of the user's. -/
theorem HttpClient.openUrl_uncancelled {sourceId : Text} {range : Option ByteRange}
    {sent : Except SendError HttpResponse} {e : AdapterError}
    (h : HttpClient.openUrl sourceId range sent = .error e) : e.error ≠ .cancelled := by
  unfold HttpClient.openUrl at h
  cases sent with
  | error s =>
    cases h
    exact fun he => by cases he
  | ok resp =>
    dsimp only at h
    split at h
    · cases h
      exact fun he => by cases he
    · split at h
      · cases h
        exact fun he => by cases he
      · split at h
        · cases h
          exact fun he => by cases he
        · cases h

/-- An opened stream breaks only in ways that are worth another attempt. -/
theorem HttpClient.openUrl_retriable {sourceId : Text} {range : Option ByteRange}
    {sent : Except SendError HttpResponse} {o : Opened}
    (h : HttpClient.openUrl sourceId range sent = .ok o) : Retriable o.stream := by
  unfold HttpClient.openUrl at h
  cases sent with
  | error s => cases h
  | ok resp =>
    dsimp only at h
    split at h
    · cases h
    · split at h
      · cases h
      · split at h
        · cases h
        · cases h
          exact retriable_streamItem sourceId resp.body

/-- What a mirror opens carries the file. -/
theorem Mirror.opens_ok {m : Mirror b} {sourceId : Text} {request start : ℕ} {o : Opened}
    (h : m.opens sourceId request start = .ok o) :
    (o.effectiveStart = start ∨ o.effectiveStart = 0) ∧
      arrived o.stream <+: b.drop o.effectiveStart := by
  unfold Mirror.opens at h
  cases hsent : m.answer request (resumeRange start) with
  | error e =>
    rw [hsent] at h
    cases h
  | ok resp =>
    rw [hsent] at h
    have hhonest := HttpClient.openUrl_honest (m.honest _ _ _ hsent) h
    rwa [requestedStart_resumeRange] at hhonest

/-- What an attempt at a mirror comes to: the file committed, or an interruption that costs
the mirror nothing. -/
inductive AttemptSpec (D : Digests) (t : Target) (m : Mirror b) (request : ℕ) (d : Disk) :
    Exit Error BlobMeta × Disk → Prop
  /-- The rest of the file arrived, and the file is committed. -/
  | committed {blob : BlobMeta} {d' : Disk}
    (delivers : m.Delivers t.sourceId request (resumable t d).length)
    (committed : Committed D (· = b) d.cache d'.cache blob) :
    AttemptSpec D t m request d (.ok blob, d')
  /-- It did not, which is worth another attempt unless the mirror refused for good. -/
  | interrupted {e : Error} {d' : Disk}
    (delivers : ¬ m.Delivers t.sourceId request (resumable t d).length)
    (interrupted : Interrupted t b d e d')
    (retriable : e.isRetriable = true ↔
      ∀ e', m.opens t.sourceId request (resumable t d).length = .error e' →
        e'.error.isRetriable = true) : AttemptSpec D t m request d (.err e, d')

/-- **The end of a stream from a mirror**: too few bytes came, or they are the file. -/
theorem Suits.verifyStream (h : Suits D t b) {file : List Cell} {st : StreamState}
    (hin : InStep D t file st d) (hbegins : bytesOf file <+: b) :
    (bytesOf file = b ∧ ∃ hashes, Atlas.verifyStream D t st d = (.ok (hashes, t.total), d) ∧
      hashes.blake3 = hexEncode (D.blake3 b) ∧ hashes.sha256 = hexEncode (D.sha256 b)) ∨
    (bytesOf file ≠ b ∧ ∃ e, Atlas.verifyStream D t st d = (.err e, d) ∧
      e.isRetriable = true) := by
  have hlen : (bytesOf file).length = st.bytesDone := by
    rw [bytesOf, List.length_map, hin.length]
  unfold Atlas.verifyStream
  by_cases hshort : st.bytesDone < t.total
  · rw [if_pos hshort]
    refine Or.inr ⟨fun hb => ?_, _, rfl, rfl⟩
    rw [h.total_eq, ← hb, hlen] at hshort
    exact absurd hshort (Nat.lt_irrefl _)
  · rw [if_neg hshort]
    have hwhole : bytesOf file = b := hbegins.eq_of_length_le (by
      rw [hlen, ← h.total_eq]
      exact Nat.le_of_not_lt hshort)
    obtain ⟨got, hgot, hb, hs⟩ := h.finish (hwhole ▸ hin.fed)
    refine Or.inl ⟨hwhole, got, ?_, hb, hs⟩
    rw [hgot]
    have hsize : (if 0 < t.total then t.total else st.bytesDone) = t.total := by
      split
      · rfl
      · rw [← hlen, hwhole, h.total_eq]
    dsimp only
    rw [hsize]
    rfl

/-- **An attempt at a mirror succeeds exactly if the rest of the file arrives.** It commits the
file then; otherwise it keeps a beginning of it, and the source is not to blame. -/
theorem Suits.streamOnce (h : Suits D t b) (hinj : Function.Injective D.blake3)
    (hsound : CasSound D d.cache) (hd : Beginning t b d) (m : Mirror b) (request : ℕ)
    (availableSpace : Option ℕ) (now : ℕ) :
    AttemptSpec D t m request d
      (Atlas.streamOnce D t (m.attempt D t request availableSpace now d) d) := by
  have hpolls : ∀ n, (m.attempt D t request availableSpace now d).cancelPolls n = false :=
    fun _ => rfl
  have hopened : (m.attempt D t request availableSpace now d).opened =
      (m.opens t.sourceId request (resumable t d).length).map
        fun o => o.opening (resumable t d).length availableSpace := by
    unfold Mirror.attempt
    rw [h.resumeFrom_eq hd fun _ => rfl]
  -- until the commit the store is as it was
  have hkeep := (cache_steady (c := d.cache)).streamToCommit (D := D) (t := t)
    (m.attempt D t request availableSpace now d) d rfl
  unfold Atlas.streamOnce
  rw [bind_apply]
  unfold streamToCommit at hkeep ⊢
  rw [bind_apply] at hkeep ⊢
  cases hopens : m.opens t.sourceId request (resumable t d).length with
  | error e =>
    rw [hopens] at hopened
    rw [h.openStream_error hd hpolls hopened] at hkeep ⊢
    refine .interrupted ?_ ⟨e.blameless, HttpClient.openUrl_uncancelled hopens, ?_, hkeep⟩ ?_
    · rintro ⟨o, ho, -⟩
      rw [hopens] at ho
      cases ho
    · intro file hfile
      rw [claimed_temp] at hfile
      obtain ⟨_, -, rfl⟩ := Option.map_eq_some_iff.mp hfile
      exact hd.resumable
    · rw [hopens]
      refine ⟨fun he e' heq => ?_, fun hall => hall e rfl⟩
      cases heq
      exact he
  | ok o =>
    obtain ⟨hstart, harrived⟩ := Mirror.opens_ok hopens
    rw [hopens] at hopened
    obtain ⟨st, d₁, file, hrun, hin, hfile, hlen⟩ := h.openStream_ok hd hpolls hopened
    rw [o.effectiveStart_opening hstart] at hlen
    rw [hrun] at hkeep ⊢
    rw [andThen_ok] at hkeep ⊢
    have hfiletake : bytesOf file = b.take o.effectiveStart := by
      rw [List.prefix_iff_eq_take.mp hfile, bytesOf, List.length_map, hlen]
    have hdelivers : m.Delivers t.sourceId request (resumable t d).length ↔
        Unbroken o.stream ∧ bytesOf file ++ arrived o.stream = b := by
      have happend : arrived o.stream = b.drop o.effectiveStart ↔
          bytesOf file ++ arrived o.stream = b := by
        rw [hfiletake]
        constructor
        · intro harrive
          rw [harrive, List.take_append_drop]
        · intro hall
          refine List.append_cancel_left (hall.trans (List.take_append_drop _ b).symm)
      unfold Mirror.Delivers
      rw [hopens, ← happend]
      constructor
      · rintro ⟨o', ho', hrest⟩
        cases ho'
        exact hrest
      · exact fun hrest => ⟨o, rfl, hrest⟩
    have hcompleting : Completing b (m.Delivers t.sourceId request (resumable t d).length)
        (o.stream.map undisturbed) file := by
      refine ⟨o.stream, rfl, HttpClient.openUrl_retriable hopens, ?_, hdelivers⟩
      obtain ⟨rest, hrest⟩ := harrived
      refine ⟨rest, ?_⟩
      rw [List.append_assoc, hrest, hfiletake, List.take_append_drop]
    have hbroken : ∀ {e : Error} {d' : Disk}, d'.cache = d.cache →
        Broke t b (m.Delivers t.sourceId request (resumable t d).length) e d' →
        AttemptSpec D t m request d (.err e, d') := fun hcache hbroke =>
      .interrupted hbroke.2.2 ⟨(Error.blameless_of_isRetriable hbroke.1).1,
        (Error.blameless_of_isRetriable hbroke.1).2, hbroke.2.1, hcache⟩
        ⟨fun _ e' he' => (by rw [hopens] at he'; cases he'), fun _ => hbroke.1⟩
    dsimp only at hkeep ⊢
    rw [bind_apply] at hkeep ⊢
    rw [show (o.opening (resumable t d).length availableSpace).events =
      o.stream.map undisturbed from rfl] at hkeep ⊢
    have hceiling : (unknownSizeCeiling t (o.opening (resumable t d).length availableSpace)
        st.bytesDone).isSome → t.total = 0 := total_eq_zero_of_ceiling
    obtain ⟨st', d₂, file', hloop, hin', hbegins, hC⟩ | ⟨e, d₂, hloop, hbroke⟩ :=
      h.foldlM_streamStep hceiling hcompleting hin
    · rw [hloop, andThen_ok] at hkeep ⊢
      rw [show (o.opening (resumable t d).length availableSpace).ending = .endOfStream
        from rfl] at hkeep ⊢
      dsimp only at hkeep ⊢
      obtain ⟨hwhole, hashes, hverify, hb, hs⟩ | ⟨hshort, e, hverify, hretriable⟩ :=
        h.verifyStream hin' hbegins
      · rw [hverify] at hkeep ⊢
        rw [andThen_ok]
        dsimp only at hkeep ⊢
        have hcache : d₂.cache = d.cache := hkeep
        obtain ⟨blob, d₃, hcommit, hcommitted⟩ :=
          h.commitBlob hinj (hcache ▸ hsound) hin'.temp hwhole hb hs
        rw [bind_apply, hcommit]
        rw [hcache] at hcommitted
        exact .committed (hC.mpr hwhole) hcommitted
      · rw [hverify] at hkeep ⊢
        refine hbroken hkeep ⟨hretriable, ?_, fun hc => hshort (hC.mp hc)⟩
        intro file'' hfile''
        rw [hin'.temp] at hfile''
        cases hfile''
        exact hbegins
    · rw [hloop] at hkeep ⊢
      exact hbroken hkeep hbroke

/-! ## What is put on record -/

/-- Since some store, nothing was put on record against anybody, so that all strikes and
bans of the later store were already in the earlier one. -/
def NobodyHarmed (d₀ d : Disk) : Prop := ∀ sourceId, Unharmed sourceId d₀ d

theorem nobodyHarmed_committing (d₀ : Disk) : Committing (NobodyHarmed d₀) where
  temps _ _ hd s := ⟨(hd s).failures, (hd s).banned, (hd s).quarantine⟩
  downloads _ _ hd s := ⟨(hd s).failures, (hd s).banned, (hd s).quarantine⟩
  trace _ _ hd s := ⟨(hd s).failures, (hd s).banned, (hd s).quarantine⟩
  cache _ _ hd s := ⟨(hd s).failures, (hd s).banned, (hd s).quarantine⟩

/-- An attempt by itself puts nothing on record against anybody. -/
theorem streamOnce_nobodyHarmed (d₀ : Disk) (attempt : Attempt) :
    Keeps (NobodyHarmed d₀) (streamOnce D t attempt) := by
  have hkeeps := nobodyHarmed_committing d₀
  refine Keeps.bind (hkeeps.streamToCommit attempt) fun _ =>
    Keeps.bind (hkeeps.commitBlob _ _ _) fun m => ?_
  exact Keeps.bind (Keeps.modify fun d hd s => (hd s).recordResult _ true _) fun _ => Keeps.pure m

/-- Nor does the record of a failure that is not about bytes. -/
theorem recordFailure_nobodyHarmed (d₀ : Disk) {e : Error} (he : e.blames = false) (now : ℕ) :
    Keeps (NobodyHarmed d₀) (recordFailure t e now) := by
  unfold recordFailure
  rw [he]
  exact Keeps.bind (Keeps.modify fun d hd s => (hd s).recordResult _ false now) fun _ =>
    Keeps.whenever fun hfalse => by cases hfalse

/-! ## The attempts at one mirror -/

/-- A visit to a mirror during which nobody interrupts and the disk works: how many requests
went there before, and the free space and the time each attempt finds. -/
structure MirrorVisit (b : Bytes) where
  mirror : Mirror b
  earlier : ℕ
  availableSpace : ℕ → Option ℕ
  clock : ℕ → ℕ

namespace MirrorVisit

variable (visit : MirrorVisit b) (D : Digests) (t : Target)

/-- The `n`-th attempt, which asks for what is missing by then; the clock and the free space
are those it then meets. -/
def attempt (n : ℕ) (d : Disk) : Attempt :=
  visit.mirror.attempt D t (visit.earlier + n) (visit.availableSpace n) (visit.clock n) d

/-- The store the `n`-th attempt begins with, if all before it fail. -/
def storeAt (d : Disk) : ℕ → Disk
  | 0 => d
  | n + 1 =>
    match Atlas.streamOnce D t (visit.attempt D t n (storeAt d n)) (storeAt d n) with
    | (.err e, d') => (recordFailure t e (visit.clock n) d').2
    | (_, d') => d'

/-- The attempts of the visit, each made on the store that the one before it left. -/
def attempts (d : Disk) (n : ℕ) : Attempt := visit.attempt D t n (visit.storeAt D t d n)

/-- The rest of the file arrives at the `n`-th attempt: the mirror delivers from where the
partial on disk ends. -/
def DeliversAt (d : Disk) (n : ℕ) : Prop :=
  visit.mirror.Delivers t.sourceId (visit.earlier + n)
    (resumable t (visit.storeAt D t d n)).length

/-- The `n`-th attempt is not refused for good, so that another may follow it. -/
def RecoverableAt (d : Disk) (n : ℕ) : Prop :=
  ∀ e, visit.mirror.opens t.sourceId (visit.earlier + n)
    (resumable t (visit.storeAt D t d n)).length = .error e → e.error.isRetriable = true

/-- **When the visit succeeds** from its `n`-th attempt on: the rest of the file arrives at one
of the attempts, and none before that is refused for good. -/
def Reached (d : Disk) (retries n : ℕ) : Prop :=
  ∃ k ≤ retries, visit.DeliversAt D t d (n + k) ∧
    ∀ j < k, visit.RecoverableAt D t d (n + j)

variable {visit D t}

theorem storeAt_succ {n : ℕ} {d' : Disk} {e : Error}
    (h : Atlas.streamOnce D t (visit.attempts D t d n) (visit.storeAt D t d n) = (.err e, d')) :
    visit.storeAt D t d (n + 1) = (recordFailure t e (visit.clock n) d').2 := by
  unfold attempts at h
  rw [storeAt, h]

/-- The visit succeeds with the first of the attempts, or after it. -/
theorem reached_iff {retries n : ℕ} :
    visit.Reached D t d retries n ↔ visit.DeliversAt D t d n ∨
      (visit.RecoverableAt D t d n ∧ ∃ r, retries = r + 1 ∧
        visit.Reached D t d r (n + 1)) := by
  constructor
  · rintro ⟨k, hk, hdelivers, hrecoverable⟩
    cases k with
    | zero => exact Or.inl hdelivers
    | succ k =>
      have hretries : retries = (retries - 1) + 1 :=
        (Nat.succ_pred_eq_of_pos (Nat.lt_of_lt_of_le (Nat.succ_pos k) hk)).symm
      refine Or.inr ⟨hrecoverable 0 (Nat.succ_pos k), retries - 1, hretries, k,
        Nat.le_sub_one_of_lt hk, ?_, fun j hj => ?_⟩
      · rwa [Nat.add_assoc, Nat.add_comm 1 k]
      · rw [Nat.add_assoc, Nat.add_comm 1 j]
        exact hrecoverable (j + 1) (Nat.succ_lt_succ hj)
  · rintro (hdelivers | ⟨hrecoverable, r, rfl, k, hk, hdelivers, hrest⟩)
    · exact ⟨0, Nat.zero_le _, hdelivers, fun j hj => absurd hj (Nat.not_lt_zero j)⟩
    · refine ⟨k + 1, Nat.succ_le_succ hk, ?_, fun j hj => ?_⟩
      · rwa [Nat.add_assoc, Nat.add_comm 1 k] at hdelivers
      · cases j with
        | zero => exact hrecoverable
        | succ j =>
          have hj' := hrest j (Nat.lt_of_succ_lt_succ hj)
          rwa [Nat.add_assoc, Nat.add_comm 1 j] at hj'

end MirrorVisit

/-- What a transfer from a mirror comes to: the file is committed exactly if `P`; otherwise a
beginning of it is kept. Nothing is put on record against anybody. -/
inductive MirrorSpec (D : Digests) (t : Target) (b : Bytes) (d : Disk) (P : Prop) :
    Exit Error BlobMeta × Disk → Prop
  | committed {blob : BlobMeta} {d' : Disk} (delivered : P)
    (committed : Committed D (· = b) d.cache d'.cache blob) (unharmed : NobodyHarmed d d') :
    MirrorSpec D t b d P (.ok blob, d')
  | interrupted {e : Error} {d' : Disk} (undelivered : ¬ P)
    (interrupted : Interrupted t b d e d') (unharmed : NobodyHarmed d d') :
    MirrorSpec D t b d P (.err e, d')

/-- A store in which the transfer can go on: what it keeps of the file is a beginning of it,
the blobs are as they were, and nothing was put on record. -/
structure Unspoilt (t : Target) (b : Bytes) (d₀ d : Disk) : Prop where
  beginning : Beginning t b d
  cache : d.cache = d₀.cache
  unharmed : NobodyHarmed d₀ d

/-- Recording a failure that is not about bytes leaves the transfer where it is. -/
theorem Unspoilt.recordFailure {d₀ d : Disk} (h : Unspoilt t b d₀ d) {e : Error}
    (he : e.blames = false) (now : ℕ) :
    ∃ d', recordFailure t e now d = (.ok (), d') ∧ Unspoilt t b d₀ d' := by
  have hharm := recordFailure_nobodyHarmed (t := t) d₀ he now d h.unharmed
  unfold Atlas.recordFailure at hharm ⊢
  rw [he] at hharm ⊢
  exact ⟨_, rfl, h.beginning, h.cache, hharm⟩

/-- **One attempt of several**: it commits the file, or fails and leaves the store the next one
begins with. -/
theorem Suits.attempt_cases (h : Suits D t b) (hinj : Function.Injective D.blake3) {d₀ : Disk}
    (hsound : CasSound D d₀.cache) {visit : MirrorVisit b} {n : ℕ}
    (hd : Unspoilt t b d₀ (visit.storeAt D t d₀ n)) :
    (visit.DeliversAt D t d₀ n ∧ ∃ blob d',
      result (Atlas.streamOnce D t (visit.attempts D t d₀ n)) (visit.storeAt D t d₀ n) =
        (.ok (.ok blob), d') ∧
      Committed D (· = b) d₀.cache d'.cache blob ∧ NobodyHarmed d₀ d') ∨
    (¬ visit.DeliversAt D t d₀ n ∧ ∃ e d',
      result (Atlas.streamOnce D t (visit.attempts D t d₀ n)) (visit.storeAt D t d₀ n) =
        (.ok (.error e), d') ∧
      e.blames = false ∧ e ≠ .cancelled ∧
      (e.isRetriable = true ↔ visit.RecoverableAt D t d₀ n) ∧
      recordFailure t e (visit.clock n) d' = (.ok (), visit.storeAt D t d₀ (n + 1)) ∧
      Unspoilt t b d₀ (visit.storeAt D t d₀ (n + 1))) := by
  -- the attempt's own result, then what is recorded of it: the next attempt's store is the one the
  -- record leaves
  have hspec : AttemptSpec D t visit.mirror (visit.earlier + n) (visit.storeAt D t d₀ n)
      (Atlas.streamOnce D t (visit.attempts D t d₀ n) (visit.storeAt D t d₀ n)) :=
    h.streamOnce hinj (hd.cache ▸ hsound) hd.beginning visit.mirror
      (visit.earlier + n) (visit.availableSpace n) (visit.clock n)
  have hkeeps := streamOnce_nobodyHarmed (D := D) (t := t) d₀ (visit.attempts D t d₀ n) _
    hd.unharmed
  unfold result
  rcases hrun : Atlas.streamOnce D t (visit.attempts D t d₀ n) (visit.storeAt D t d₀ n) with
    ⟨blob | e | _, d'⟩
  · rw [hrun] at hspec hkeeps
    cases hspec with
    | committed hdelivers hcommitted =>
      rw [hd.cache] at hcommitted
      exact Or.inl ⟨hdelivers, blob, d', rfl, hcommitted, hkeeps⟩
  · have hnext := MirrorVisit.storeAt_succ hrun
    rw [hrun] at hspec hkeeps
    cases hspec with
    | interrupted hdelivers hinterrupted hretriable =>
      have hresumable : Unspoilt t b d₀ d' :=
        ⟨hinterrupted.beginning, hinterrupted.cache.trans hd.cache, hkeeps⟩
      obtain ⟨d'', hrecord, hresumable'⟩ :=
        hresumable.recordFailure hinterrupted.blameless (visit.clock n)
      rw [hrecord] at hnext
      rw [hnext]
      exact Or.inr ⟨hdelivers, e, d', rfl, hinterrupted.blameless, hinterrupted.uncancelled,
        hretriable, hrecord, hresumable'⟩
  · rw [hrun] at hspec
    cases hspec

/-- **The attempts at a mirror** commit the file exactly if the rest of it arrives at one of
them, however the others fail. -/
theorem Suits.attemptLoop (h : Suits D t b) (hinj : Function.Injective D.blake3) {d₀ : Disk}
    (hsound : CasSound D d₀.cache) {visit : MirrorVisit b} {run : SourceRun}
    (hrun : run.attempts = visit.attempts D t d₀) (retries n : ℕ)
    (hd : Unspoilt t b d₀ (visit.storeAt D t d₀ n)) :
    MirrorSpec D t b d₀ (visit.Reached D t d₀ retries n)
      (Atlas.attemptLoop D t run retries n (visit.storeAt D t d₀ n)) := by
  -- on the retries left; the store at attempt `n` is computed by the visit, so the two cases meet
  -- the same attempt
  induction retries generalizing n with
  | zero =>
    unfold Atlas.attemptLoop
    rw [bind_apply, hrun]
    obtain ⟨hdelivers, blob, d', hok, hcommitted, hharm⟩ |
      ⟨hdelivers, e, d', herr, hblames, hcancelled, -, hrecord, hnext⟩ :=
      h.attempt_cases hinj hsound hd
    · rw [hok]
      exact .committed (MirrorVisit.reached_iff.mpr (Or.inl hdelivers)) hcommitted hharm
    · rw [herr, andThen_ok]
      dsimp only
      rw [if_neg hcancelled, bind_apply]
      rw [show (visit.attempts D t d₀ n).now = visit.clock n from rfl, hrecord, andThen_ok]
      refine .interrupted (fun hreached => ?_)
        ⟨hblames, hcancelled, hnext.beginning, hnext.cache⟩ hnext.unharmed
      obtain hnow | ⟨-, r, hr, -⟩ := MirrorVisit.reached_iff.mp hreached
      · exact hdelivers hnow
      · cases hr
  | succ retries ih =>
    unfold Atlas.attemptLoop
    rw [bind_apply, hrun]
    obtain ⟨hdelivers, blob, d', hok, hcommitted, hharm⟩ |
      ⟨hdelivers, e, d', herr, hblames, hcancelled, hretriable, hrecord, hnext⟩ :=
      h.attempt_cases hinj hsound hd
    · rw [hok]
      exact .committed (MirrorVisit.reached_iff.mpr (Or.inl hdelivers)) hcommitted hharm
    · rw [herr, andThen_ok]
      dsimp only
      rw [if_neg hcancelled, bind_apply]
      rw [show (visit.attempts D t d₀ n).now = visit.clock n from rfl, hrecord, andThen_ok]
      -- this attempt did not deliver, so the visit delivers only by recovering and going on
      have hreached : visit.Reached D t d₀ (retries + 1) n ↔
          visit.RecoverableAt D t d₀ n ∧ visit.Reached D t d₀ retries (n + 1) := by
        rw [MirrorVisit.reached_iff]
        constructor
        · rintro (hnow | ⟨hrecoverable, r, hr, hlater⟩)
          · exact absurd hnow hdelivers
          · cases hr
            exact ⟨hrecoverable, hlater⟩
        · exact fun hlater => Or.inr ⟨hlater.1, retries, rfl, hlater.2⟩
      rw [hreached]
      by_cases hagain : e.isRetriable = true
      · rw [if_pos hagain]
        have hloop := ih (n + 1) hnext
        rw [propext (and_iff_right (hretriable.mp hagain))]
        exact hloop
      · rw [if_neg hagain]
        exact .interrupted (fun hlater => hagain (hretriable.mpr hlater.1))
          ⟨hblames, hcancelled, hnext.beginning, hnext.cache⟩ hnext.unharmed

end Atlas
