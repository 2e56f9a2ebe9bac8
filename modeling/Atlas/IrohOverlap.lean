import Atlas.IrohOpen

/-!
# Overlapping fetches yield the blob

What each call, lane and late step relies on (`PhaseSound`, `LaneSound`, `Exportable`) is
kept by every step of the others, as long as all that is under way at a path is after one
blob: such a step is `Steady`, with the one exception of making the scratch file anew. So it
holds along every run of careful steps (`Sound.step`), and a stream that ends has yielded
the blob (`streams_exact_of_careful`).
-/

namespace Atlas

open Text Transition

/-! ## What is relied on -/

/-- What a call relies on. Of the length that it saw the scratch file to have nothing is known
while another fetch makes the file anew. -/
def PhaseSound (exempt : Prop) (f : ScratchFiles) (c : OpenCall) : Prop :=
  let t := c.wanted
  match c.phase with
  | .measuring | .creating => MULTIPEER_MIN_BYTES ≤ t.blob.size
  | .reading sized => MULTIPEER_MIN_BYTES ≤ t.blob.size ∧
      (sized = true → (f.OnDest fun x => x.len = t.blob.size) ∨ exempt)
  | .sizing n => MULTIPEER_MIN_BYTES ≤ t.blob.size ∧
      ∀ m, f.dest = some m → m = n ∨ (f.nodes m).Full t.blob
  | .starting => MULTIPEER_MIN_BYTES ≤ t.blob.size ∧ f.OnDest fun x => x.len = t.blob.size
  | .proceeding done => f.Mine t ∧ (f.OnDest fun x => x.len = t.blob.size) ∧
      ∀ p ∈ done, f.OnDest (Scratch.Has t.blob p)
  | .striping left j => f.Mine t ∧ (f.OnDest fun x => x.len = t.blob.size) ∧
      (∀ p ∈ stripePieces t.blob.size, p ∉ left → f.OnDest (Scratch.Has t.blob p)) ∧
      (∀ p ∈ left, p ∈ stripePieces t.blob.size) ∧
      ∀ k, j = some k → k < f.nextLog ∧ Headed t.blob.size t.hash (f.logs k)
  | .finishing | .fetched | .opening _ => f.OnDest (Scratch.Full t.blob)
  | .downloading | .replacing | .exporting _ | .retrying => f.Exportable t
  | .streaming _ n => n < f.next ∧ (f.nodes n).Full t.blob
  | _ => True

/-- What a lane relies on: its file is there at full length, and the name still leads to it
unless another file is complete. -/
structure LaneSound (f : ScratchFiles) (l : StripeLane) : Prop where
  node : l.node < f.next
  len : (f.nodes l.node).len = l.wanted.blob.size
  /-- The lane writes to the file that has the name, unless one that holds all has. -/
  dest : ∀ m, f.dest = some m → m = l.node ∨ (f.nodes m).Full l.wanted.blob
  mine : f.Mine l.wanted
  journal : ∀ k, l.journal = some k → k < f.nextLog ∧
    Headed l.wanted.blob.size l.wanted.hash (f.logs k)
  fetching : ∀ p, l.task = .fetching p → p ∈ stripePieces l.wanted.blob.size
  written : ∀ p, l.task = .written p → p ∈ stripePieces l.wanted.blob.size ∧
    (f.nodes l.node).Has l.wanted.blob p

/-- What a stream yielded is an initial part of the blob, and all of it at the end. -/
structure OpenCall.Yields {D : Digests} (W : Swarm D) (c : OpenCall) : Prop where
  known : W.Knows c.wanted
  named : parseHex32 c.blobHash = some c.wanted.hash
  direct : c.viaTicket = false
  start : c.yielded <+: c.wanted.blob.bytes
  all : c.phase.atEnd = true → c.yielded = c.wanted.blob.bytes

variable {D : Digests} {W : Swarm D}

theorem Swarm.Knows.unique {t u : Wanted} (ht : W.Knows t) (hu : W.Knows u)
    (h : u.hash = t.hash) : u = t := by
  cases t with
  | mk hash b =>
    cases u with
    | mk hash' b' =>
      obtain rfl : hash' = hash := h
      obtain rfl : b = b' := Option.some.inj (Eq.trans (Eq.symm ht) hu)
      rfl

section Steady

variable {f g : ScratchFiles} {c : OpenCall} {l : StripeLane} {exempt exempt' : Prop}

theorem PhaseSound.mono (h : PhaseSound exempt f c)
    (hexempt : exempt → exempt' ∨ f.OnDest fun x => x.len = c.wanted.blob.size) :
    PhaseSound exempt' f c := by
  unfold PhaseSound at h ⊢
  cases hphase : c.phase with
  | reading sized =>
    simp only [hphase] at h ⊢
    refine ⟨h.1, fun hsized => ?_⟩
    obtain hlen | hex := h.2 hsized
    · exact Or.inl hlen
    · exact (hexempt hex).symm
  | probing | probingJournal | clearing | asking | closing | closingJournal | ended | discarding
  | discardingJournal | failed => simp only
  | _ =>
    simp only [hphase] at h ⊢
    exact h

/-- **What a call relies on, it goes on to have.** -/
theorem PhaseSound.steady (h : PhaseSound exempt f c) (hwf : f.Wf)
    (hfg : c.phase.active = true → f.Steady c.wanted g) : PhaseSound exempt g c := by
  -- a steady change keeps the three facts the phases speak of: the length, the pieces, and fullness
  have hlen : c.phase.active = true → (f.OnDest fun x => x.len = c.wanted.blob.size) →
      g.OnDest fun x => x.len = c.wanted.blob.size := fun hactive hlen =>
    hlen.steady hwf (hfg hactive) (fun _ _ hxy hx => (hxy hx).1) fun _ hx => hx.1
  have hhas : c.phase.active = true → ∀ p, f.OnDest (Scratch.Has c.wanted.blob p) →
      g.OnDest (Scratch.Has c.wanted.blob p) := fun hactive p hhas =>
    hhas.steady hwf (hfg hactive) (fun _ _ hxy hx => hx.grows hxy) fun _ hx => hx.has p
  have hfull : c.phase.active = true → f.OnDest (Scratch.Full c.wanted.blob) →
      g.OnDest (Scratch.Full c.wanted.blob) := fun hactive hfull =>
    hfull.steady hwf (hfg hactive) (fun _ _ hxy hx => hx.grows hxy) fun _ hx => hx
  unfold PhaseSound at h ⊢
  cases hphase : c.phase with
  | measuring | creating =>
    simp only [hphase] at h ⊢
    exact h
  | reading sized =>
    simp only [hphase] at h hlen ⊢
    exact ⟨h.1, fun hsized => (h.2 hsized).imp_left (hlen rfl)⟩
  | sizing n =>
    simp only [hphase] at h hfg ⊢
    refine ⟨h.1, fun m hm => ?_⟩
    obtain hold | hnew := (hfg rfl).dest m hm
    · exact (h.2 m hold).imp_right fun hx => hx.grows ((hfg rfl).nodes m (hwf.dest m hold))
    · exact Or.inr hnew
  | starting =>
    simp only [hphase] at h hlen ⊢
    exact ⟨h.1, hlen rfl h.2⟩
  | proceeding done =>
    simp only [hphase] at h hfg hlen hhas ⊢
    exact ⟨h.1.steady hwf (hfg rfl), hlen rfl h.2.1, fun p hp => hhas rfl p (h.2.2 p hp)⟩
  | striping left j =>
    simp only [hphase] at h hfg hlen hhas ⊢
    obtain ⟨hmine, hsize, hpieces, hleft, hj⟩ := h
    refine ⟨hmine.steady hwf (hfg rfl), hlen rfl hsize,
      fun p hp hnot => hhas rfl p (hpieces p hp hnot), hleft, fun k hk => ?_⟩
    obtain ⟨hlt, hheaded⟩ := hj k hk
    exact ⟨Nat.lt_of_lt_of_le hlt (hfg rfl).nextLog, (hfg rfl).logs k hlt hheaded⟩
  | finishing | fetched | opening totalSize =>
    simp only [hphase] at h hfull ⊢
    exact hfull rfl h
  | downloading | replacing | exporting again | retrying =>
    simp only [hphase] at h hfg ⊢
    exact h.steady hwf (hfg rfl)
  | streaming totalSize n =>
    simp only [hphase] at h hfg ⊢
    exact ⟨Nat.lt_of_lt_of_le h.1 (hfg rfl).next, h.2.grows ((hfg rfl).nodes n h.1)⟩
  | _ => trivial

theorem LaneSound.steady (h : LaneSound f l) (hwf : f.Wf) (hfg : f.Steady l.wanted g) :
    LaneSound g l where
  node := Nat.lt_of_lt_of_le h.node hfg.next
  len := (hfg.nodes _ h.node h.len).1
  dest := by
    intro m hm
    obtain hold | hnew := hfg.dest m hm
    · exact (h.dest m hold).imp_right fun hx => hx.grows (hfg.nodes m (hwf.dest m hold))
    · exact Or.inr hnew
  mine := h.mine.steady hwf hfg
  journal := by
    intro k hk
    obtain ⟨hlt, hheaded⟩ := h.journal k hk
    exact ⟨Nat.lt_of_lt_of_le hlt hfg.nextLog, hfg.logs k hlt hheaded⟩
  fetching := h.fetching
  written := fun p hp => ⟨(h.written p hp).1, (h.written p hp).2.grows (hfg.nodes _ h.node)⟩

/-- The file that has the name has the length of a lane's blob. -/
theorem LaneSound.onDest_len (h : LaneSound f l) :
    f.OnDest fun x => x.len = l.wanted.blob.size := by
  intro m hm
  obtain rfl | hfull := h.dest m hm
  · exact h.len
  · exact hfull.1

/-- What a lane wrote is in the file that has the name. -/
theorem LaneSound.onDest_has (h : LaneSound f l) {p : Piece} (hp : l.task = .written p) :
    f.OnDest (Scratch.Has l.wanted.blob p) := by
  intro m hm
  obtain rfl | hfull := h.dest m hm
  · exact (h.written p hp).2
  · exact hfull.has p

end Steady

namespace ScratchSlot

variable {s : ScratchSlot} {t : Wanted} {i k : ℕ} {c c' : OpenCall} {l : StripeLane}
  {g : ScratchFiles}

/-- What all that happened at a scratch path has led to: the files are well formed, and
every call, lane and late step is sound for the one blob in use. -/
structure Sound (W : Swarm D) (s : ScratchSlot) : Prop where
  wf : s.files.Wf
  known : ∀ t ∈ s.users, W.Knows t
  /-- All that is under way is after one blob. -/
  agree : ∀ t ∈ s.users, ∀ u ∈ s.users, t = u
  logs : s.Exempt ∨ s.files.LogOk W.Knows
  calls : ∀ c ∈ s.calls, PhaseSound s.Exempt s.files c
  lanes : ∀ l ∈ s.lanes, l.task ≠ .gone → LaneSound s.files l
  late : ∀ t, .exportBlob t ∈ s.late → s.files.Exportable t
  yields : ∀ c ∈ s.calls, c.Yields W

theorem mem_users : t ∈ s.users ↔ (∃ c ∈ s.calls, c.phase.active = true ∧ c.wanted = t) ∨
    (∃ l ∈ s.lanes, l.task ≠ .gone ∧ l.wanted = t) ∨ .exportBlob t ∈ s.late := by
  unfold users
  rw [List.mem_append, List.mem_append, List.mem_map, List.mem_map, List.mem_filterMap]
  refine or_congr ?_ (or_congr ?_ ?_)
  · simp only [List.mem_filter, and_assoc]
  · simp only [List.mem_filter, and_assoc, decide_eq_true_eq]
  · constructor
    · rintro ⟨late, hmem, hwanted⟩
      cases late with
      | remove => cases hwanted
      | exportBlob u =>
        obtain rfl : u = t := Option.some.inj hwanted
        exact hmem
    · exact fun hmem => ⟨_, hmem, rfl⟩

theorem sound_fresh : fresh.Sound W where
  wf := ⟨nofun, nofun, fun _ h => absurd h (Nat.not_lt_zero _)⟩
  known := fun _ h => nomatch h
  agree := fun _ h => nomatch h
  logs := Or.inr fun _ _ _ h => nomatch h
  calls := fun _ h => nomatch h
  lanes := fun _ h => nomatch h
  late := fun _ h => nomatch h
  yields := fun _ h => nomatch h

theorem mem_users_of_call (hc : s.calls[i]? = some c) (hactive : c.phase.active = true) :
    c.wanted ∈ s.users :=
  mem_users.mpr (Or.inl ⟨c, List.mem_of_getElem? hc, hactive, rfl⟩)

theorem mem_users_of_lane (hl : s.lanes[k]? = some l) (halive : l.task ≠ .gone) :
    l.wanted ∈ s.users :=
  mem_users.mpr (Or.inr (Or.inl ⟨l, List.mem_of_getElem? hl, halive, rfl⟩))

theorem mem_users_of_put (ht : t ∈ (s.put i c').users) (hc : s.calls[i]? = some c)
    (hwanted : c'.wanted = c.wanted) (hactive : c.phase.active = true) : t ∈ s.users := by
  obtain ⟨d, hd, hdactive, rfl⟩ | ht := mem_users.mp ht
  · obtain hd | rfl := List.mem_or_eq_of_mem_set hd
    · exact mem_users.mpr (Or.inl ⟨d, hd, hdactive, rfl⟩)
    · rw [hwanted]
      exact mem_users_of_call hc hactive
  · exact mem_users.mpr (Or.inr ht)

namespace Sound

/-- **What a fetch does to the files gets in the way of no other.** -/
theorem withFiles (h : s.Sound W) (hfg : ∀ t ∈ s.users, s.files.Steady t g) (hwf : g.Wf)
    (hlogs : s.Exempt ∨ g.LogOk W.Knows) : (s.withFiles g).Sound W where
  wf := hwf
  known := h.known
  agree := h.agree
  logs := hlogs
  calls := fun c hc => (h.calls c hc).steady h.wf fun hactive =>
    hfg c.wanted (mem_users.mpr (Or.inl ⟨c, hc, hactive, rfl⟩))
  lanes := fun l hl halive => (h.lanes l hl halive).steady h.wf
    (hfg l.wanted (mem_users.mpr (Or.inr (Or.inl ⟨l, hl, halive, rfl⟩))))
  late := fun t ht => (h.late t ht).steady h.wf (hfg t (mem_users.mpr (Or.inr (Or.inr ht))))
  yields := h.yields

/-- What one fetch does gets in the way of none that is after the same blob. -/
theorem steady_users (h : s.Sound W) (ht : t ∈ s.users) (hfg : s.files.Steady t g) :
    ∀ u ∈ s.users, s.files.Steady u g :=
  fun u hu => h.agree t ht u hu ▸ hfg

/-- A call goes on. If it made the file anew, its journal is there now. -/
theorem put (h : s.Sound W) (hc : s.calls[i]? = some c) (hwanted : c'.wanted = c.wanted)
    (hactive : c.phase.active = true)
    (hmade : c.phase.making = true → c'.phase.making = true ∨ s.files.LogOk W.Knows ∧
      s.files.OnDest fun x => x.len = c.wanted.blob.size)
    (hsound : PhaseSound False s.files c') (hyields : c'.Yields W) : (s.put i c').Sound W := by
  have husers : ∀ t ∈ (s.put i c').users, t ∈ s.users := fun t ht =>
    mem_users_of_put ht hc hwanted hactive
  have hlt : i < s.calls.length := (List.getElem?_eq_some_iff.mp hc).1
  have hexempt : s.Exempt → (s.put i c').Exempt ∨ s.files.LogOk W.Knows ∧
      s.files.OnDest fun x => x.len = c.wanted.blob.size := by
    rintro ⟨d, hd, hmaking⟩
    obtain ⟨j, hj⟩ := List.mem_iff_getElem?.mp hd
    by_cases hij : i = j
    · subst hij
      obtain rfl := Option.some.inj (hc.symm.trans hj)
      refine (hmade hmaking).imp_left fun hnew => ⟨c', ?_, hnew⟩
      exact List.mem_iff_getElem?.mpr ⟨i, List.getElem?_set_self hlt⟩
    · refine Or.inl ⟨d, List.mem_iff_getElem?.mpr ⟨j, ?_⟩, hmaking⟩
      exact (List.getElem?_set_ne hij).trans hj
  refine
    { wf := h.wf
      known := fun t ht => h.known t (husers t ht)
      agree := fun t ht u hu => h.agree t (husers t ht) u (husers u hu)
      logs := ?_
      calls := ?_
      lanes := h.lanes
      late := h.late
      yields := ?_ }
  · obtain hex | hlogs := h.logs
    · exact (hexempt hex).imp_right And.left
    · exact Or.inr hlogs
  · intro d hd
    obtain hd | rfl := List.mem_or_eq_of_mem_set hd
    · by_cases hdactive : d.phase.active = true
      · have hsame : c.wanted = d.wanted := h.agree _ (mem_users_of_call hc hactive) _
          (mem_users.mpr (Or.inl ⟨d, hd, hdactive, rfl⟩))
        exact (h.calls d hd).mono fun hex => (hexempt hex).imp_right fun hok => hsame ▸ hok.2
      · -- a call that is over relies on nothing
        suffices hnone : PhaseSound False s.files d from hnone.mono False.elim
        unfold PhaseSound
        cases hphase : d.phase with
        | ended | failed => simp only
        | _ => exact absurd (by rw [hphase]; rfl) hdactive
    · exact hsound.mono False.elim
  · intro d hd
    obtain hd | rfl := List.mem_or_eq_of_mem_set hd
    · exact h.yields d hd
    · exact hyields

/-- A call goes on, and what it did gets in the way of no other. -/
theorem move {phase : OpenPhase} (h : s.Sound W) (hc : s.calls[i]? = some c)
    (hactive : c.phase.active = true) (hfg : s.files.Steady c.wanted g) (hwf : g.Wf)
    (hlogs : s.Exempt ∨ g.LogOk W.Knows)
    (hmade : c.phase.making = true → phase.making = true ∨ g.LogOk W.Knows ∧
      g.OnDest fun x => x.len = c.wanted.blob.size)
    (hsound : PhaseSound False g { c with phase := phase })
    (hend : phase.atEnd = true → c.phase.atEnd = true) : (s.move i c g phase).Sound W := by
  have hyields := h.yields c (List.mem_of_getElem? hc)
  have hfiles := h.withFiles (h.steady_users (mem_users_of_call hc hactive) hfg) hwf hlogs
  exact hfiles.put hc rfl hactive hmade hsound
    ⟨hyields.known, hyields.named, hyields.direct, hyields.start,
      fun hatEnd => hyields.all (hend hatEnd)⟩

/-- A call goes on, and the files are as they were. -/
theorem stay {phase : OpenPhase} (h : s.Sound W) (hc : s.calls[i]? = some c)
    (hactive : c.phase.active = true) (hmaking : c.phase.making = false)
    (hsound : PhaseSound False s.files { c with phase := phase })
    (hend : phase.atEnd = true → c.phase.atEnd = true) :
    (s.move i c s.files phase).Sound W :=
  h.move hc hactive (.refl _ _) h.wf h.logs
    (fun hm => absurd (hmaking.symm.trans hm) Bool.false_ne_true) hsound hend

theorem unlinkDest {phase : OpenPhase} (h : s.Sound W) (hc : s.calls[i]? = some c)
    (hactive : c.phase.active = true) (hmaking : c.phase.making = false)
    (hsound : PhaseSound False s.files.unlinkDest { c with phase := phase })
    (hend : phase.atEnd = true → c.phase.atEnd = true) :
    (s.move i c s.files.unlinkDest phase).Sound W :=
  h.move hc hactive (ScratchFiles.steady_unlinkDest _ _) h.wf.unlinkDest
    (h.logs.imp_right fun _ => ScratchFiles.LogOk.unlinkDest)
    (fun hm => absurd (hmaking.symm.trans hm) Bool.false_ne_true) hsound hend

theorem unlinkJournal {phase : OpenPhase} (h : s.Sound W) (hc : s.calls[i]? = some c)
    (hactive : c.phase.active = true) (hmaking : c.phase.making = false)
    (hsound : PhaseSound False s.files.unlinkJournal { c with phase := phase })
    (hend : phase.atEnd = true → c.phase.atEnd = true) :
    (s.move i c s.files.unlinkJournal phase).Sound W :=
  h.move hc hactive (ScratchFiles.steady_unlinkJournal _ _) h.wf.unlinkJournal
    (h.logs.imp_right fun _ => ScratchFiles.LogOk.unlinkJournal)
    (fun hm => absurd (hmaking.symm.trans hm) Bool.false_ne_true) hsound hend

/-- **The scratch file is made anew where nothing relies on it.** -/
theorem create (h : s.Sound W) (hc : s.calls[i]? = some c) (hphase : c.phase = .creating)
    (hfree : s.Free) :
    (s.move i c s.files.createDest (.sizing s.files.createdNode)).Sound W := by
  have hactive : c.phase.active = true := by rw [hphase]; rfl
  have hmem := List.mem_of_getElem? hc
  have hlt : i < s.calls.length := (List.getElem?_eq_some_iff.mp hc).1
  have hsize : MULTIPEER_MIN_BYTES ≤ c.wanted.blob.size := by
    have hsound := h.calls c hmem
    unfold PhaseSound at hsound
    simp only [hphase] at hsound
    exact hsound
  have hexempt : (s.move i c s.files.createDest (.sizing s.files.createdNode)).Exempt :=
    ⟨_, List.mem_iff_getElem?.mpr ⟨i, List.getElem?_set_self hlt⟩, rfl⟩
  have husers : ∀ t ∈ (s.move i c s.files.createDest (.sizing s.files.createdNode)).users,
      t ∈ s.users := by
    intro t ht
    have ht : t ∈ (s.put i { c with phase := .sizing s.files.createdNode }).users := ht
    exact mem_users_of_put ht hc rfl hactive
  refine
    { wf := h.wf.createDest
      known := fun t ht => h.known t (husers t ht)
      agree := fun t ht u hu => h.agree t (husers t ht) u (husers u hu)
      logs := Or.inl hexempt
      calls := ?_
      lanes := fun l hl halive => absurd (hfree.1 l hl) halive
      late := h.late
      yields := ?_ }
  · intro d hd
    obtain hd | rfl := List.mem_or_eq_of_mem_set hd
    · obtain ⟨hcounting, hstreams⟩ := hfree.2 d hd
      have hsound := h.calls d hd
      unfold PhaseSound at hsound ⊢
      cases hdphase : d.phase with
      | reading sized =>
        simp only [hdphase] at hsound ⊢
        exact ⟨hsound.1, fun _ => Or.inr hexempt⟩
      | streaming totalSize n =>
        simp only [hdphase] at hsound hstreams ⊢
        -- the file that is cut, or made, is not the one that is read
        have hne : n ≠ s.files.createdNode := by
          rintro rfl
          unfold ScratchFiles.createdNode at hstreams hsound
          cases hdest : s.files.dest with
          | none =>
            rw [hdest] at hsound
            exact Nat.lt_irrefl _ hsound.1
          | some m =>
            rw [hdest] at hstreams
            obtain hnone | hnot := hstreams
            · cases hnone
            · exact hnot rfl
        refine ⟨Nat.lt_of_lt_of_le hsound.1 (Nat.le_max_left _ _), ?_⟩
        show (Function.update s.files.nodes s.files.createdNode _ n).Full _
        rw [Function.update_of_ne hne]
        exact hsound.2
      | sizing | starting | proceeding | striping | finishing | fetched | opening =>
        rw [hdphase] at hcounting
        cases hcounting
      | _ =>
        simp only [hdphase] at hsound ⊢
        try exact hsound
    · exact ⟨hsize, fun m hm => Or.inl (Option.some.inj hm).symm⟩
  · intro d hd
    obtain hd | rfl := List.mem_or_eq_of_mem_set hd
    · exact h.yields d hd
    · have hyields := h.yields c hmem
      exact ⟨hyields.known, hyields.named, hyields.direct, hyields.start, nofun⟩

theorem unique (h : s.Sound W) (hc : s.calls[i]? = some c) (u : Wanted) (hu : W.Knows u)
    (hhash : u.hash = c.wanted.hash) : u = c.wanted :=
  (h.yields c (List.mem_of_getElem? hc)).known.unique hu hhash

theorem advance_opening_some {totalSize : Option ℕ} {n : ℕ} (hphase : c.phase = .opening totalSize)
    (hdest : s.files.dest = some n) :
    s.advance i c = s.move i c s.files (.streaming totalSize n) := by
  unfold ScratchSlot.advance
  simp only [hphase, hdest]

theorem advance_opening_none {totalSize : Option ℕ} (hphase : c.phase = .opening totalSize)
    (hdest : s.files.dest = none) : s.advance i c = s.move i c s.files .failed := by
  unfold ScratchSlot.advance
  simp only [hphase, hdest]

/-- **A call takes its next step**, one case for each phase. -/
theorem advance (h : s.Sound W) (hc : s.calls[i]? = some c)
    (hcareful : (c.phase = .creating → s.Free) ∧ (c.phase = .reading true → ¬ s.Exempt)) :
    (s.advance i c).Sound W := by
  have hmem := List.mem_of_getElem? hc
  have hsound := h.calls c hmem
  have hyields := h.yields c hmem
  have hunique := fun u => h.unique hc u
  obtain ⟨blobHash, t, viaTicket, phase, yielded⟩ := c
  cases phase with
  -- one case per phase of a call; only `creating`, `sizing`, `starting`, `exporting` and the
  -- unlinking phases touch the files, the others move the call on with the files as they were
  | probing =>
    show (s.move i _ s.files (if s.files.dest.isSome then _ else _)).Sound W
    split
    · exact h.stay hc rfl rfl trivial nofun
    · exact h.stay hc rfl rfl trivial nofun
  | probingJournal =>
    show (s.move i _ s.files (if s.files.journal.isSome then _ else _)).Sound W
    split
    · exact h.stay hc rfl rfl trivial nofun
    · exact h.stay hc rfl rfl trivial nofun
  | clearing => exact h.unlinkDest hc rfl rfl trivial nofun
  | asking =>
    show (s.move i _ s.files (if viaTicket = false ∧ MULTIPEER_MIN_BYTES ≤ t.blob.size then _
      else _)).Sound W
    split
    · rename_i hlarge
      exact h.stay hc rfl rfl hlarge.2 nofun
    · rename_i hsmall
      refine h.stay hc rfl rfl (Or.inl (Nat.lt_of_not_le fun hle => hsmall ⟨?_, hle⟩)) nofun
      exact hyields.direct
  -- the length is read now and trusted later: another call may recreate the file in between, which
  -- is what `Exempt` is for
  | measuring =>
    refine h.stay hc rfl rfl ⟨hsound, fun hsized => Or.inl fun n hn => ?_⟩ nofun
    have hlen : s.files.destLen = some t.blob.size := of_decide_eq_true hsized
    unfold ScratchFiles.destLen at hlen
    rw [hn] at hlen
    exact Option.some.inj hlen
  | reading sized =>
    show (s.move i _ s.files (if _ = ∅ then _ else _)).Sound W
    split
    · exact h.stay hc rfl rfl hsound.1 nofun
    · rename_i hne
      -- a file of the wrong length loads no journal, so nothing can be resumed from it
      cases sized with
      | false =>
        refine absurd ?_ hne
        have hnone : s.files.loadStripeJournal false t.blob.size t.hash = ∅ := by
          unfold ScratchFiles.loadStripeJournal
          split
          · rfl
          · rfl
        show resumedPieces t.blob.size (s.files.loadStripeJournal false t.blob.size t.hash) = ∅
        rw [hnone]
        exact if_pos nofun
      | true =>
        have hexempt := hcareful.2 rfl
        have hlen : s.files.OnDest fun x => x.len = t.blob.size :=
          (hsound.2 rfl).resolve_right hexempt
        obtain ⟨hmine, hpieces⟩ :=
          (h.logs.resolve_left hexempt).resumed h.wf hyields.known hlen hne
        exact h.stay hc rfl rfl ⟨hmine, hlen, hpieces⟩ nofun
  | creating => exact h.create hc rfl (hcareful.1 rfl)
  | sizing n =>
    refine h.move hc rfl (ScratchFiles.steady_setLen _ _ _) (h.wf.setLen _ _)
      (Or.inl ⟨_, hmem, rfl⟩) (fun _ => Or.inl rfl) ⟨hsound.1, fun m hm => ?_⟩ nofun
    show (Function.update s.files.nodes n _ m).len = t.blob.size
    by_cases hmn : m = n
    · rw [hmn, Function.update_self]
      rfl
    · rw [Function.update_of_ne hmn]
      exact ((hsound.2 m hm).resolve_left hmn).1
  | starting =>
    have hlogs : (s.files.startJournal t.blob.size t.hash).LogOk W.Knows :=
      ScratchFiles.LogOk.startJournal _ _
    exact h.move hc rfl (ScratchFiles.steady_startJournal _ _) (h.wf.startJournal hsound.1 _)
      (Or.inr hlogs) (fun _ => Or.inr ⟨hlogs, hsound.2⟩)
      ⟨ScratchFiles.mine_startJournal _ _, hsound.2, nofun⟩ nofun
  -- what the journal did not list is queued; what it listed is already in the scratch
  | proceeding done =>
    obtain ⟨hmine, hlen, hdone⟩ := hsound
    have hpieces : ∀ p ∈ stripePieces t.blob.size,
        p ∉ ((stripePieces t.blob.size).filter fun p => p ∉ done) →
          s.files.OnDest (Scratch.Has t.blob p) := by
      intro p hp hnot
      refine hdone p (by_contra fun hp' => hnot ?_)
      exact List.mem_filter.mpr ⟨hp, decide_eq_true hp'⟩
    show (s.move i _ s.files (if _ = [] then _ else _)).Sound W
    split
    · rename_i hnil
      refine h.stay hc rfl rfl (fun n hn => ?_) nofun
      refine Scratch.full_of_has (hlen n hn) fun p hp => hpieces p hp ?_ n hn
      exact hnil ▸ List.not_mem_nil
    · refine h.stay hc rfl rfl ⟨hmine, hlen, hpieces, fun p hp => (List.mem_filter.mp hp).1,
        fun k hk => ⟨h.wf.journal k hk, hmine k hk⟩⟩ nofun
  | striping left j =>
    obtain ⟨hmine, hlen, hpieces, hleft, hj⟩ := hsound
    show (s.move i _ s.files (if left = [] then _ else _)).Sound W
    split
    · rename_i hnil
      refine h.stay hc rfl rfl (fun n hn => ?_) nofun
      refine Scratch.full_of_has (hlen n hn) fun p hp => hpieces p hp ?_ n hn
      exact hnil ▸ List.not_mem_nil
    · exact h.stay hc rfl rfl ⟨hmine, hlen, hpieces, hleft, hj⟩ nofun
  | finishing => exact h.unlinkJournal hc rfl rfl hsound nofun
  | downloading =>
    show (s.move i _ s.files (if s.files.dest.isSome then _ else _)).Sound W
    split
    · exact h.stay hc rfl rfl hsound nofun
    · exact h.stay hc rfl rfl hsound nofun
  | replacing => exact h.unlinkDest hc rfl rfl hsound nofun
  | exporting again =>
    exact h.move hc rfl (ScratchFiles.steady_exportBlob _ _) (h.wf.exportBlob _)
      (h.logs.imp_right fun _ => ScratchFiles.LogOk.exportBlob h.wf hsound hunique) nofun
      (ScratchFiles.full_exportBlob _ _) nofun
  | retrying => exact h.unlinkDest hc rfl rfl hsound nofun
  | fetched => exact h.stay hc rfl rfl hsound nofun
  | opening totalSize =>
    cases hdest : s.files.dest with
    | none =>
      rw [advance_opening_none rfl hdest]
      exact h.stay hc rfl rfl trivial nofun
    | some n =>
      rw [advance_opening_some rfl hdest]
      exact h.stay hc rfl rfl ⟨h.wf.dest n hdest, hsound n hdest⟩ nofun
  | streaming totalSize n => exact h
  | closing => exact h.unlinkDest hc rfl rfl trivial fun _ => rfl
  | closingJournal => exact h.unlinkJournal hc rfl rfl trivial fun _ => rfl
  | ended => exact h
  | discarding => exact h.unlinkDest hc rfl rfl trivial nofun
  | discardingJournal => exact h.unlinkJournal hc rfl rfl trivial nofun
  | failed => exact h

theorem fail (h : s.Sound W) (hc : s.calls[i]? = some c) : (s.fail i c).Sound W := by
  have hsound := h.calls c (List.mem_of_getElem? hc)
  obtain ⟨blobHash, t, viaTicket, phase, yielded⟩ := c
  cases phase with
  | striping left j => exact h.stay hc rfl rfl (Or.inr hsound.1) nofun
  | exporting again =>
    cases again with
    | false => exact h.stay hc rfl rfl hsound nofun
    | true => exact h.stay hc rfl rfl trivial nofun
  | probing | asking | downloading => exact h.stay hc rfl rfl trivial nofun
  | _ => exact h

/-- What is still under way of a call that was given up gets in the way of no other. -/
theorem addLate (h : s.Sound W) {step : LateStep}
    (hstep : ∀ t, step = .exportBlob t → t ∈ s.users ∧ s.files.Exportable t) {s' : ScratchSlot}
    (hs' : s'.Sound W) (hfiles : s'.files = s.files) (husers : ∀ t ∈ s'.users, t ∈ s.users) :
    ({ s' with late := s'.late ++ [step] } : ScratchSlot).Sound W := by
  have hmem : ∀ t ∈ ({ s' with late := s'.late ++ [step] } : ScratchSlot).users,
      t ∈ s.users := by
    intro t ht
    obtain hcall | hlane | hlate := mem_users.mp ht
    · exact husers t (mem_users.mpr (Or.inl hcall))
    · exact husers t (mem_users.mpr (Or.inr (Or.inl hlane)))
    · obtain hlate | hlate := List.mem_append.mp hlate
      · exact husers t (mem_users.mpr (Or.inr (Or.inr hlate)))
      · exact (hstep t (List.mem_singleton.mp hlate).symm).1
  refine
    { hs' with
      known := fun t ht => h.known t (hmem t ht)
      agree := fun t ht u hu => h.agree t (hmem t ht) u (hmem u hu)
      late := fun t ht => ?_ }
  obtain hlate | hlate := List.mem_append.mp ht
  · exact hs'.late t hlate
  · exact hfiles ▸ (hstep t (List.mem_singleton.mp hlate).symm).2

theorem giveUp (h : s.Sound W) (hc : s.calls[i]? = some c) (discard : Bool) :
    (s.giveUp i c discard).Sound W := by
  have hsound := h.calls c (List.mem_of_getElem? hc)
  have hstop : ∀ hactive : c.phase.active = true, c.phase.making = false →
      (s.move i c s.files (if discard then .discarding else .failed)).Sound W ∧
        ∀ t ∈ (s.move i c s.files (if discard then .discarding else .failed)).users,
          t ∈ s.users := by
    intro hactive hmaking
    refine ⟨?_, fun t ht => mem_users_of_put ht hc rfl hactive⟩
    cases discard with
    | false => exact h.stay hc hactive hmaking trivial nofun
    | true => exact h.stay hc hactive hmaking trivial nofun
  have hused := mem_users_of_call hc
  obtain ⟨blobHash, t, viaTicket, phase, yielded⟩ := c
  cases phase with
  | striping left j => exact (hstop rfl rfl).1
  | downloading => exact (hstop rfl rfl).1
  | replacing | retrying =>
    have hremove : ∀ u, LateStep.remove = .exportBlob u → u ∈ s.users ∧ s.files.Exportable u :=
      fun _ hstep => nomatch hstep
    exact h.addLate hremove (hstop rfl rfl).1 rfl (hstop rfl rfl).2
  | exporting again =>
    refine h.addLate (fun u hu => ?_) (hstop rfl rfl).1 rfl (hstop rfl rfl).2
    obtain rfl := LateStep.exportBlob.inj hu
    exact ⟨hused rfl, hsound⟩
  | _ => exact h

/-- What a stream is given goes on where it is. -/
theorem readAt_append {f : ScratchFiles} {n : ℕ} {b : Blob} {yielded : Bytes}
    (hfull : (f.nodes n).Full b) (hstart : yielded <+: b.bytes) (count : ℕ) :
    yielded ++ f.readAt n yielded.length count <+: b.bytes := by
  obtain ⟨rest, hrest⟩ := hstart
  have hbyte : ∀ k, rest[k]? = (List.range b.size)[yielded.length + k]?.map b.byte := by
    intro k
    have hget : (yielded ++ rest)[yielded.length + k]? = b.bytes[yielded.length + k]? := by
      rw [hrest]
    rw [List.getElem?_append_right (Nat.le_add_right _ _), Nat.add_sub_cancel_left] at hget
    rw [hget]
    exact List.getElem?_map
  have hread : f.readAt n yielded.length count = rest.take count := by
    refine List.ext_getElem? fun k => ?_
    unfold ScratchFiles.readAt
    rw [hfull.1, List.getElem?_map, List.getElem?_take]
    by_cases hk : k < min count (b.size - yielded.length)
    · have hin : yielded.length + k < b.size := by omega
      rw [if_pos (Nat.lt_of_lt_of_le hk (Nat.min_le_left _ _)), hbyte,
        List.getElem?_range hk, List.getElem?_range hin]
      exact congrArg some (hfull.2 _ hin)
    · rw [List.getElem?_eq_none (List.length_range ▸ Nat.le_of_not_lt hk), Option.map_none]
      split
      · have hout : b.size ≤ yielded.length + k := by omega
        rw [hbyte, List.getElem?_eq_none (List.length_range.symm ▸ hout)]
        rfl
      · rfl
  rw [hread, ← hrest, List.prefix_append_right_inj]
  exact List.take_prefix _ _

theorem read (h : s.Sound W) (hc : s.calls[i]? = some c) (count : ℕ) :
    (s.read i c count).Sound W := by
  have hmem := List.mem_of_getElem? hc
  have hsound := h.calls c hmem
  have hyields := h.yields c hmem
  obtain ⟨blobHash, t, viaTicket, phase, yielded⟩ := c
  cases phase with
  | streaming totalSize n =>
    have happend := readAt_append hsound.2 hyields.start (max 1 (min count STREAM_BUFFER))
    show (if s.files.readAt n yielded.length _ = [] then _ else _ : ScratchSlot).Sound W
    split
    · rename_i hnil
      refine h.put hc rfl rfl nofun trivial
        ⟨hyields.known, hyields.named, hyields.direct, hyields.start, fun _ => ?_⟩
      -- at least one byte is asked for, so that the file is at its end
      refine hyields.start.eq_of_length_le ?_
      have hzero := congrArg List.length hnil
      unfold ScratchFiles.readAt at hzero
      rw [List.length_map, List.length_range, hsound.2.1] at hzero
      show t.blob.bytes.length ≤ yielded.length
      unfold Blob.bytes
      rw [List.length_map, List.length_range]
      have hzero : min (max 1 (min count STREAM_BUFFER)) (t.blob.size - yielded.length) = 0 :=
        hzero
      omega
    · exact h.put hc rfl rfl nofun hsound
        ⟨hyields.known, hyields.named, hyields.direct, happend, nofun⟩
  | _ => exact h

theorem drop (h : s.Sound W) (hc : s.calls[i]? = some c) : (s.drop i c).Sound W := by
  obtain ⟨blobHash, t, viaTicket, phase, yielded⟩ := c
  cases phase with
  | streaming totalSize n => exact h.stay hc rfl rfl trivial nofun
  | _ => exact h

/-! ## Lanes -/

/-- A lane goes on, and what it did gets in the way of no other. -/
theorem moveLane {task : LaneTask} (h : s.Sound W) (hl : s.lanes[k]? = some l)
    (halive : l.task ≠ .gone) (hfg : s.files.Steady l.wanted g) (hwf : g.Wf)
    (hlogs : s.Exempt ∨ g.LogOk W.Knows)
    (hsound : task ≠ .gone → LaneSound g { l with task := task }) :
    (s.moveLane k l g task).Sound W := by
  have hused := mem_users_of_lane hl halive
  have hfiles := h.withFiles (h.steady_users hused hfg) hwf hlogs
  have husers : ∀ t ∈ (s.moveLane k l g task).users, t ∈ s.users := by
    intro t ht
    obtain hcall | ⟨m, hm, hmalive, rfl⟩ | hlate := mem_users.mp ht
    · exact mem_users.mpr (Or.inl hcall)
    · obtain hm | rfl := List.mem_or_eq_of_mem_set hm
      · exact mem_users.mpr (Or.inr (Or.inl ⟨m, hm, hmalive, rfl⟩))
      · exact hused
    · exact mem_users.mpr (Or.inr (Or.inr hlate))
  refine
    { hfiles with
      known := fun t ht => h.known t (husers t ht)
      agree := fun t ht u hu => h.agree t (husers t ht) u (husers u hu)
      lanes := fun m hm hmalive => ?_ }
  obtain hm | rfl := List.mem_or_eq_of_mem_set hm
  · exact hfiles.lanes m hm hmalive
  · exact hsound hmalive

theorem openLane (h : s.Sound W) (hc : s.calls[i]? = some c) : (s.openLane i c).Sound W := by
  have hsound := h.calls c (List.mem_of_getElem? hc)
  have hused := mem_users_of_call hc
  obtain ⟨blobHash, t, viaTicket, phase, yielded⟩ := c
  cases phase with
  | striping left j =>
    unfold ScratchSlot.openLane
    cases hdest : s.files.dest with
    | none => exact h
    | some n =>
      obtain ⟨hmine, hlen, -, -, hj⟩ := hsound
      have hlane : LaneSound s.files ⟨i, t, n, j, .idle⟩ :=
        ⟨h.wf.dest n hdest, hlen n hdest,
          fun m hm => Or.inl (Option.some.inj (hm.symm.trans hdest)), hmine, hj, nofun, nofun⟩
      have husers : ∀ u ∈ ({ s with lanes := s.lanes ++ [⟨i, t, n, j, .idle⟩] } :
          ScratchSlot).users, u ∈ s.users := by
        intro u hu
        obtain hcall | ⟨m, hm, hmalive, rfl⟩ | hlate := mem_users.mp hu
        · exact mem_users.mpr (Or.inl hcall)
        · obtain hm | hm := List.mem_append.mp hm
          · exact mem_users.mpr (Or.inr (Or.inl ⟨m, hm, hmalive, rfl⟩))
          · obtain rfl := List.mem_singleton.mp hm
            exact hused rfl
        · exact mem_users.mpr (Or.inr (Or.inr hlate))
      refine
        { h with
          known := fun u hu => h.known u (husers u hu)
          agree := fun u hu v hv => h.agree u (husers u hu) v (husers v hv)
          lanes := fun m hm hmalive => ?_ }
      obtain hm | hm := List.mem_append.mp hm
      · exact h.lanes m hm hmalive
      · obtain rfl := List.mem_singleton.mp hm
        exact hlane
  | _ => exact h

/-- The piece of a lane is one that is left of its call. -/
theorem mem_stripePieces_of_leftOf (h : s.Sound W) (hl : s.lanes[k]? = some l)
    (halive : l.task ≠ .gone) {p : Piece} (hp : p ∈ s.leftOf l.call) :
    p ∈ stripePieces l.wanted.blob.size := by
  unfold leftOf at hp
  cases hc : s.calls[l.call]? with
  | none =>
    rw [hc] at hp
    cases hp
  | some c =>
    rw [hc] at hp
    have hsound := h.calls c (List.mem_of_getElem? hc)
    have hused := mem_users_of_call hc
    obtain ⟨blobHash, t, viaTicket, phase, yielded⟩ := c
    cases phase with
    | striping left j =>
      obtain rfl : t = l.wanted := h.agree t (hused rfl) _ (mem_users_of_lane hl halive)
      exact hsound.2.2.2.1 p hp
    | _ => cases hp

/-- A piece is done that is in the file. -/
theorem completePiece (h : s.Sound W) {p : Piece} (hused : t ∈ s.users)
    (hp : s.files.OnDest (Scratch.Has t.blob p)) (hgrid : p ∈ stripePieces t.blob.size) :
    (s.completePiece i p).Sound W := by
  unfold ScratchSlot.completePiece
  cases hc : s.calls[i]? with
  | none => exact h
  | some c =>
    have hsound := h.calls c (List.mem_of_getElem? hc)
    have hcall := mem_users_of_call hc
    obtain ⟨blobHash, u, viaTicket, phase, yielded⟩ := c
    cases phase with
    | striping left j =>
      obtain rfl : u = t := h.agree u (hcall rfl) t hused
      obtain ⟨hmine, hlen, hpieces, hleft, hj⟩ := hsound
      show (s.move i _ s.files (.striping (left.erase p) j)).Sound W
      refine h.stay hc rfl rfl ⟨hmine, hlen, fun q hq hnot => ?_,
        fun q hq => hleft q (List.mem_of_mem_erase hq), hj⟩ nofun
      by_cases hqp : q = p
      · rw [hqp]
        exact hp
      · exact hpieces q hq fun hmem => hnot ((List.mem_erase_of_ne hqp).mpr hmem)
    | _ => exact h

/-- A lane that is gone does nothing but stay so. -/
theorem laneStep_gone (h : s.Sound W) (hl : s.lanes[k]? = some l) (hgone : l.task = .gone)
    (e : ScratchEvent) : (s.laneStep k l e).Sound W := by
  obtain ⟨call, t, node, journal, task⟩ := l
  obtain rfl : task = .gone := hgone
  have hsame : s.moveLane k ⟨call, t, node, journal, .gone⟩ s.files .gone = s := by
    obtain ⟨hlt, hget⟩ := List.getElem?_eq_some_iff.mp hl
    show ({ s with lanes := s.lanes.set k ⟨call, t, node, journal, .gone⟩ } : ScratchSlot) = s
    rw [← hget, List.set_getElem_self]
  cases e with
  | leave k' =>
    show (s.moveLane k ⟨call, t, node, journal, .gone⟩ s.files .gone).Sound W
    rw [hsame]
    exact h
  | _ => exact h

/-- **A lane does something**, one case for each thing it can do. -/
theorem laneStep (h : s.Sound W) (hl : s.lanes[k]? = some l) (halive : l.task ≠ .gone)
    (e : ScratchEvent) : (s.laneStep k l e).Sound W := by
  have hsound := h.lanes l (List.mem_of_getElem? hl) halive
  have hused := mem_users_of_lane hl halive
  have hknown := h.known _ hused
  have hleft : ∀ p ∈ s.leftOf l.call, p ∈ stripePieces l.wanted.blob.size := fun p hp =>
    h.mem_stripePieces_of_leftOf hl halive hp
  have hunchanged : ∀ {task : LaneTask},
      (task ≠ .gone → LaneSound s.files { l with task := task }) →
      (s.moveLane k l s.files task).Sound W := fun hnew =>
    h.moveLane hl halive (.refl _ _) h.wf h.logs hnew
  -- a lane writes only ranges of its own blob, below the blob's size, so a write keeps the journal
  -- sound for every other user of the file
  have hwrite : ∀ {task : LaneTask} {start stop : ℕ}, stop ≤ l.wanted.blob.size →
      (task ≠ .gone → LaneSound (s.files.writeRange l.node l.wanted.blob start stop)
        { l with task := task }) →
      (s.moveLane k l (s.files.writeRange l.node l.wanted.blob start stop) task).Sound W :=
    fun hstop hnew =>
      have hfg := ScratchFiles.steady_writeRange (t := l.wanted) l.node hstop s.files
      h.moveLane hl halive hfg (h.wf.writeRange _ _ _ _)
        (h.logs.imp_right fun hlogs => hlogs.steady h.wf hfg hsound.mine hknown
          (fun u hu => hknown.unique hu) hsound.onDest_len rfl fun _ _ _ hp _ => Or.inl hp) hnew
  obtain ⟨call, t, node, journal, task⟩ := l
  cases task with
  | gone => exact absurd rfl halive
  | idle =>
    cases e with
    | take k' p =>
      show (if p ∈ s.leftOf call then _ else s : ScratchSlot).Sound W
      split
      · rename_i hp
        exact hunchanged fun _ => { hsound with
          fetching := fun q hq => LaneTask.fetching.inj hq ▸ hleft p hp
          written := nofun }
      · exact h
    | leave k' => exact hunchanged fun hne => absurd rfl hne
    | _ => exact h
  | fetching p =>
    have hgrid := hsound.fetching p rfl
    cases e with
    | leaf k' start stop =>
      show (if _ ∧ stop ≤ min (p.2 * BLAKE3_CHUNK) t.blob.size then _ else s :
        ScratchSlot).Sound W
      split
      · rename_i hrange
        have hstop : stop ≤ t.blob.size := Nat.le_trans hrange.2 (Nat.min_le_right _ _)
        exact hwrite hstop fun _ => hsound.steady h.wf
          (ScratchFiles.steady_writeRange node hstop s.files)
      · exact h
    | piece k' =>
      have hstop : min (p.2 * BLAKE3_CHUNK) t.blob.size ≤ t.blob.size := Nat.min_le_right _ _
      have hfg : s.files.Steady t (s.files.writeRange node t.blob (p.1 * BLAKE3_CHUNK)
          (min (p.2 * BLAKE3_CHUNK) t.blob.size)) :=
        ScratchFiles.steady_writeRange node hstop s.files
      have hnew := hsound.steady h.wf hfg
      refine hwrite hstop fun _ => { hnew with
        fetching := nofun
        written := fun q hq => ?_ }
      obtain rfl := LaneTask.written.inj hq
      refine ⟨hgrid, ?_⟩
      show (Function.update s.files.nodes node _ node).Has t.blob p
      rw [Function.update_self]
      exact Scratch.has_fill hsound.len p
    | requeue k' =>
      exact hunchanged fun _ => { hsound with fetching := nofun, written := nofun }
    | leave k' => exact hunchanged fun hne => absurd rfl hne
    | _ => exact h
  -- the line is appended only after the piece has been written: the piece it names is there
  | written p =>
    cases e with
    | note k' =>
      obtain ⟨hgrid, hhas⟩ := hsound.written p rfl
      have hfg := ScratchFiles.steady_appendLine t journal p s.files
      have hwf := h.wf.appendLine journal p
      have hlogs : s.Exempt ∨ (s.files.appendLine journal p).LogOk W.Knows := by
        refine h.logs.imp_right fun hlogs => ?_
        cases journal with
        | none => exact hlogs
        | some j =>
          refine hlogs.steady h.wf hfg hsound.mine hknown (fun u hu => hknown.unique hu)
            hsound.onDest_len rfl fun j' hj' q hq hqgrid => ?_
          have hq : q ∈ notedPieces t.blob.size t.hash (lines
              (Function.update s.files.logs j (s.files.logs j ++ (journalLine p ++ ['\n'])) j')) :=
            hq
          by_cases hjj : j' = j
          · rw [hjj, Function.update_self] at hq
            refine ((hsound.journal j rfl).2.noted_append hgrid hqgrid hq).imp ?_ ?_
            · exact fun hold => hjj.symm ▸ hold
            · rintro rfl
              exact hsound.onDest_has rfl
          · rw [Function.update_of_ne hjj] at hq
            exact Or.inl hq
      have hmoved : (s.moveLane k ⟨call, t, node, journal, .written p⟩
          (s.files.appendLine journal p) .idle).Sound W :=
        h.moveLane hl halive hfg hwf hlogs fun _ =>
          { hsound.steady h.wf hfg with fetching := nofun, written := nofun }
      have hlt : k < s.lanes.length := (List.getElem?_eq_some_iff.mp hl).1
      refine hmoved.completePiece (t := t) ?_ ?_ hgrid
      · exact mem_users.mpr (Or.inr (Or.inl ⟨_,
          List.mem_iff_getElem?.mpr ⟨k, List.getElem?_set_self hlt⟩, nofun, rfl⟩))
      · have hdest := (hsound.steady h.wf hfg).onDest_has (p := p) rfl
        exact hdest
    | leave k' => exact hunchanged fun hne => absurd rfl hne
    | _ => exact h

/-! ## All steps -/

/-- What was under way of a fetch that was given up is no more. -/
theorem eraseLate (h : s.Sound W) (k : ℕ) :
    ({ s with late := s.late.eraseIdx k } : ScratchSlot).Sound W := by
  have husers : ∀ t ∈ ({ s with late := s.late.eraseIdx k } : ScratchSlot).users, t ∈ s.users := by
    intro t ht
    obtain hcall | hlane | hlate := mem_users.mp ht
    · exact mem_users.mpr (Or.inl hcall)
    · exact mem_users.mpr (Or.inr (Or.inl hlane))
    · exact mem_users.mpr (Or.inr (Or.inr (List.mem_of_mem_eraseIdx hlate)))
  exact
    { h with
      known := fun t ht => h.known t (husers t ht)
      agree := fun t ht u hu => h.agree t (husers t ht) u (husers u hu)
      late := fun t ht => h.late t (List.mem_of_mem_eraseIdx ht) }

theorem lateStep (h : s.Sound W) {step : LateStep} (hstep : s.late[k]? = some step) :
    (s.withFiles (lateStep step s.files)).Sound W := by
  have hmem := List.mem_of_getElem? hstep
  cases step with
  | remove =>
    exact h.withFiles (fun t _ => ScratchFiles.steady_unlinkDest t s.files) h.wf.unlinkDest
      (h.logs.imp_right fun _ => ScratchFiles.LogOk.unlinkDest)
  | exportBlob t =>
    have ht : t ∈ s.users := mem_users.mpr (Or.inr (Or.inr hmem))
    exact h.withFiles (h.steady_users ht (ScratchFiles.steady_exportBlob t s.files))
      (h.wf.exportBlob _)
      (h.logs.imp_right fun _ => ScratchFiles.LogOk.exportBlob h.wf (h.late t hmem)
        fun u hu => (h.known t ht).unique hu)

theorem begin (h : s.Sound W) {blobHash : Text} (ticket : Bytes)
    (hlength : blobHash.utf8Len = 64)
    (halone : ∀ t ∈ s.users, parseHex32 blobHash = some t.hash) :
    (s.begin W blobHash ticket).Sound W := by
  unfold ScratchSlot.begin
  -- 64 bytes are parsed as a hash; a text of another length would be looked up by its ticket
  have hdirect : decide (blobHash.utf8Len ≠ 64) = false := decide_eq_false (not_not.mpr hlength)
  show ((if decide (blobHash.utf8Len ≠ 64) = true then some ticket else parseHex32 blobHash).elim
    s _).Sound W
  rw [hdirect, if_neg Bool.false_ne_true]
  cases hparse : parseHex32 blobHash with
  | none => exact h
  | some hash =>
    show ((W.blob hash).elim s _).Sound W
    cases hblob : W.blob hash with
    | none => exact h
    | some b =>
      show ({ s with calls := s.calls ++ [⟨blobHash, ⟨hash, b⟩, false, .probing, []⟩] } :
        ScratchSlot).Sound W
      have hknows : W.Knows ⟨hash, b⟩ := hblob
      have hexempt : s.Exempt → ({ s with
          calls := s.calls ++ [⟨blobHash, ⟨hash, b⟩, false, .probing, []⟩] } :
          ScratchSlot).Exempt := fun ⟨c, hc, hmaking⟩ =>
        ⟨c, List.mem_append_left _ hc, hmaking⟩
      -- whoever uses the slot already asks for the same hash, and one hash names one blob
      have husers : ∀ t ∈ ({ s with
          calls := s.calls ++ [⟨blobHash, ⟨hash, b⟩, false, .probing, []⟩] } :
          ScratchSlot).users, W.Knows t ∧ t = ⟨hash, b⟩ := by
        intro t ht
        have hold : t ∈ s.users → W.Knows t ∧ t = ⟨hash, b⟩ := fun ht =>
          ⟨h.known t ht, hknows.unique (h.known t ht)
            (Option.some.inj ((halone t ht).symm.trans hparse))⟩
        obtain ⟨c, hc, hactive, rfl⟩ | hother := mem_users.mp ht
        · obtain hc | hc := List.mem_append.mp hc
          · exact hold (mem_users.mpr (Or.inl ⟨c, hc, hactive, rfl⟩))
          · obtain rfl := List.mem_singleton.mp hc
            exact ⟨hknows, rfl⟩
        · exact hold (mem_users.mpr (Or.inr hother))
      refine
        { h with
          known := fun t ht => (husers t ht).1
          agree := fun t ht u hu => (husers t ht).2.trans (husers u hu).2.symm
          logs := h.logs.imp_left hexempt
          calls := fun c hc => ?_
          yields := fun c hc => ?_ }
      · obtain hc | hc := List.mem_append.mp hc
        · exact (h.calls c hc).mono fun hex => Or.inl (hexempt hex)
        · obtain rfl := List.mem_singleton.mp hc
          exact trivial
      · obtain hc | hc := List.mem_append.mp hc
        · exact h.yields c hc
        · obtain rfl := List.mem_singleton.mp hc
          exact ⟨hknows, hparse, rfl, List.nil_prefix, nofun⟩

/-- **A careful step keeps what all rely on.** -/
theorem step (h : s.Sound W) {e : ScratchEvent} (hcareful : s.Careful e) :
    (s.step W e).Sound W := by
  have hcall : ∀ (i : ℕ) (f : OpenCall → ScratchSlot),
      (∀ c, s.calls[i]? = some c → (f c).Sound W) → ((s.calls[i]?).elim s f).Sound W := by
    intro i f hf
    cases hc : s.calls[i]? with
    | none => exact h
    | some c => exact hf c hc
  have hlane : ∀ (k : ℕ) (e : ScratchEvent),
      ((s.lanes[k]?).elim s fun l => s.laneStep k l e).Sound W := by
    intro k e
    cases hl : s.lanes[k]? with
    | none => exact h
    | some l =>
      by_cases hgone : l.task = .gone
      · exact h.laneStep_gone hl hgone e
      · exact h.laneStep hl hgone e
  cases e with
  | begin blobHash ticket => exact h.begin ticket hcareful.1 hcareful.2
  | advance i => exact hcall i _ fun c hc => h.advance hc (hcareful c hc)
  | fail i => exact hcall i _ fun c hc => h.fail hc
  | giveUp i discard => exact hcall i _ fun c hc => h.giveUp hc discard
  | read i count => exact hcall i _ fun c hc => h.read hc count
  | drop i => exact hcall i _ fun c hc => h.drop hc
  | lane i => exact hcall i _ fun c hc => h.openLane hc
  | take k p => exact hlane k _
  | leaf k start stop => exact hlane k _
  | piece k => exact hlane k _
  | requeue k => exact hlane k _
  | note k => exact hlane k _
  | leave k => exact hlane k _
  | late k =>
    show ((s.late[k]?).elim s _).Sound W
    cases hstep : s.late[k]? with
    | none => exact h
    | some step => exact (h.lateStep hstep).eraseLate k
  | forget k => exact h.eraseLate k

end Sound

end ScratchSlot

/-! ## Runs -/

/-- A stream yielded an initial part of the bytes that the blob hash is of, and all of them at
its end. -/
def OpenCall.Exact (D : Digests) (c : OpenCall) : Prop :=
  parseHex32 c.blobHash = some (D.blake3 c.wanted.blob.bytes) ∧
    c.yielded <+: c.wanted.blob.bytes ∧
    (c.phase.atEnd = true → c.yielded = c.wanted.blob.bytes)

theorem ScratchDir.sound_of_careful {events : List DirEvent}
    (h : Along (ScratchDir.step W) ScratchDir.Careful events ScratchDir.fresh) (path : Text) :
    ((events.foldl (ScratchDir.step W) ScratchDir.fresh) path).Sound W := by
  revert path
  refine h.invariant (I := fun d => ∀ path, (d path).Sound W) ?_ fun _ =>
    ScratchSlot.sound_fresh
  intro d e hd hcareful path
  unfold ScratchDir.step
  by_cases hpath : path = e.slot
  · rw [hpath, Function.update_self]
    exact (hd _).step hcareful
  · rw [Function.update_of_ne hpath]
    exact hd path

/-- **Overlapping fetches yield the blob**, in every run whose steps are careful: whatever
calls of `open` there are, of the same blob or of others, and however their steps and the
reads of their streams come after one another, a stream yields the bytes that the blob hash
is of, and ends after all of them. -/
theorem streams_exact_of_careful {events : List DirEvent}
    (h : Along (ScratchDir.step W) ScratchDir.Careful events ScratchDir.fresh) (path : Text) :
    ∀ c ∈ ((events.foldl (ScratchDir.step W) ScratchDir.fresh) path).calls, c.Exact D := by
  intro c hc
  have hyields := (ScratchDir.sound_of_careful h path).yields c hc
  refine ⟨?_, hyields.start, hyields.all⟩
  rw [hyields.named, W.verified _ _ hyields.known]

/-! ## A run that is careful, and one that is not -/

/-- A digest that tells whether bytes are as many as those of the smallest striped blob. -/
def lengthDigests : Digests where
  blake3 bytes := if bytes.length = MULTIPEER_MIN_BYTES then List.replicate 32 0
    else List.replicate 32 1
  sha256 := id
  sha1 := id

/-- A blob of zeros that is just large enough to be fetched in stripes. -/
def zeros : Blob := ⟨MULTIPEER_MIN_BYTES, fun _ => 0⟩

/-- A small blob of ones, which no stripes are made of; it is below the size from which a
blob is fetched in stripes. -/
def threeOnes : Blob := ⟨3, fun _ => 1⟩

theorem Blob.length_bytes (b : Blob) : b.bytes.length = b.size := by
  unfold Blob.bytes
  rw [List.length_map, List.length_range]

theorem blake3_lengthDigests (b : Blob) : lengthDigests.blake3 b.bytes =
    if b.size = MULTIPEER_MIN_BYTES then List.replicate 32 0 else List.replicate 32 1 := by
  rw [← b.length_bytes]
  rfl

/-- Peers that have a blob to be striped and a small one. -/
def twoBlobs : Swarm lengthDigests where
  blob hash :=
    if hash = List.replicate 32 0 then some zeros
    else if hash = List.replicate 32 1 then some threeOnes
    else none
  verified hash b h := by
    split at h
    · rename_i hhash
      obtain rfl := Option.some.inj h
      rw [hhash, blake3_lengthDigests]
      exact if_pos rfl
    · split at h
      · rename_i hhash
        obtain rfl := Option.some.inj h
        rw [hhash, blake3_lengthDigests]
        exact if_neg (show 3 ≠ MULTIPEER_MIN_BYTES by decide)
      · cases h

/-- The hash of the large blob, in the example, which is not its BLAKE3 digest but serves as
its name there. -/
def zerosHash : Text := List.replicate 64 '0'

/-- The hash of the small one, written with the digits `01` repeated. -/
def onesHash : Text := (List.replicate 32 ['0', '1']).flatten

/-- Two calls for the small blob: the second removes what the first is reading, and the first
removes what the second is reading. -/
def alternating : List DirEvent :=
  let events : List (List ScratchEvent) :=
    [[.begin onesHash []], List.replicate 6 (.advance 0), [.read 0 2, .begin onesHash []],
      List.replicate 8 (.advance 1), [.read 0 9, .read 1 9, .read 0 9, .advance 0, .advance 0,
        .read 1 9, .advance 1, .advance 1]]
  events.flatten.map (DirEvent.mk (scratchPath onesHash))

/-- The streams of both calls yield the blob. -/
theorem alternating_exact :
    (∀ c ∈ ((alternating.foldl (ScratchDir.step twoBlobs) ScratchDir.fresh)
      (scratchPath onesHash)).calls, c.Exact lengthDigests) ∧
      ((alternating.foldl (ScratchDir.step twoBlobs) ScratchDir.fresh)
        (scratchPath onesHash)).calls.map (fun c => (c.phase, c.yielded)) =
          [(.ended, [1, 1, 1]), (.ended, [1, 1, 1])] :=
  ⟨streams_exact_of_careful (by decide +kernel) _, by decide +kernel⟩

/-- A call falls back to a single peer, with a journal left that notes nothing; while its
stream reads the file, another call finds nothing to resume and makes the file anew. -/
def recreating : List DirEvent :=
  let events : List (List ScratchEvent) :=
    [[.begin zerosHash []], List.replicate 8 (.advance 0), [.fail 0],
      List.replicate 5 (.advance 0), [.read 0 1, .begin zerosHash []],
      List.replicate 6 (.advance 1), [.read 0 1, .advance 0, .advance 0]]
  events.flatten.map (DirEvent.mk (scratchPath zerosHash))

/-- **A file that is made anew cuts the stream that reads it.** The peer was honest, `open`
returned a stream, and the stream ends after one byte. -/
theorem recreated_file_cuts_stream :
    ∃ c ∈ ((recreating.foldl (ScratchDir.step twoBlobs) ScratchDir.fresh)
      (scratchPath zerosHash)).calls,
      c.phase = .ended ∧ c.yielded = [0] ∧
        parseHex32 c.blobHash ≠ some (lengthDigests.blake3 c.yielded) := by
  have hcall : (((recreating.foldl (ScratchDir.step twoBlobs) ScratchDir.fresh)
      (scratchPath zerosHash)).calls[0]?.map fun c => (c.blobHash, c.phase, c.yielded)) =
        some (zerosHash, .ended, [0]) := by
    decide +kernel
  obtain ⟨c, hc, hfields⟩ := Option.map_eq_some_iff.mp hcall
  obtain ⟨hhash, hphase, hyielded⟩ :
      c.blobHash = zerosHash ∧ c.phase = .ended ∧ c.yielded = [0] :=
    ⟨congrArg Prod.fst hfields, congrArg (fun x => x.2.1) hfields,
      congrArg (fun x => x.2.2) hfields⟩
  refine ⟨c, List.mem_of_getElem? hc, hphase, hyielded, ?_⟩
  rw [hhash, hyielded]
  decide +kernel

end Atlas
