import Atlas.SeedRegistry

/-!
# The registry of seeds and the session

The table of seeds and the torrents of the session answer for each other: what the table
lists is on its way or in the session, what is in the session is seen to by somebody
(`SeedRegistry.Sound`). Every step keeps it that meets a condition: a task that ends takes
itself out of the table, which needs it to be in the table already and to have its guard;
a task that is dropped has no torrent nobody else sees to; nobody deletes a torrent the
table lists. `seeds_match_session` is what follows for runs of such steps, and
`phantom_seed` what is left of a task whose session did not start, and of one that was
dropped with its torrent just added.
-/

namespace Atlas

open AList Transition

namespace SeedRegistry

variable {Hash : Type}

/-! ## The invariant -/

/-- Somebody sees to a torrent of the blob: the table lists it, a promotion has yet to
record or to delete it, or a call has it to delete. -/
def Held (s : SeedRegistry Hash) (blob : Text) (id : ℕ) : Prop :=
  id ∈ s.listed blob ∨
    (∃ (k : ℕ) (p : Promotion), s.tasks[k]? = some p ∧ p.blob = blob ∧
      p.point.torrent = some id) ∨
    ∃ u ∈ s.unseeds, u.blob = blob ∧ id ∈ u.deletes

/-- **The two sides answer for each other.** What the table lists is on its way or in the
session; what is in the session is seen to; and what was cancelled is not in the table. -/
structure Sound (infoHash : Text → Text → Hash) (s : SeedRegistry Hash) : Prop where
  present : ∀ b, s.seeds.lookup b ≠ none → s.pending b ≠ [] ∨ s.listed b ≠ []
  pending : ∀ b, ∀ k ∈ s.pending b, ∃ p : Promotion, s.tasks[k]? = some p ∧ p.blob = b ∧
    p.registered = true ∧ p.point ≠ .ended
  listed : ∀ b, ∀ id ∈ s.listed b, ∃ name, (id, infoHash b name) ∈ s.torrents
  held : ∀ b name id, (id, infoHash b name) ∈ s.torrents → s.Held b id
  aborted : ∀ (k : ℕ) (p : Promotion), s.tasks[k]? = some p → p.aborted = true →
    p.registered = true ∧ ∀ b, k ∉ s.pending b
  cancels : ∀ u ∈ s.unseeds, ∀ k ∈ u.cancels, ∃ p : Promotion, s.tasks[k]? = some p ∧
    p.registered = true ∧ ∀ b, k ∉ s.pending b
  asleep : s.live = false →
    s.torrents = [] ∧ ∀ p ∈ s.tasks, p.point = .session ∨ p.point = .ended

variable {infoHash : Text → Text → Hash} {s : SeedRegistry Hash} {k : ℕ} {p : Promotion}

theorem sound_new : Sound infoHash (new : SeedRegistry Hash) where
  present b h := absurd (AList.lookup_empty b) h
  pending b k h := by cases h
  listed b id h := by cases h
  held b name id h := by cases h
  aborted k p h := by cases h
  cancels u h := by cases h
  asleep _ := ⟨rfl, nofun⟩

theorem SeenTo.other {blob : Text} {id : ℕ} (h : s.SeenTo blob id k)
    (hmem : id ∈ s.torrents.map Prod.fst) :
    id ∈ s.listed blob ∨
      (∃ j ≠ k, ∃ q : Promotion, s.tasks[j]? = some q ∧ q.blob = blob ∧
        q.point.torrent = some id) ∨
      ∃ u ∈ s.unseeds, u.blob = blob ∧ id ∈ u.deletes := by
  obtain hgone | hlisted | ⟨q, hq, hblob, htorrent⟩ | hunseed := h
  · exact absurd hmem hgone
  · exact .inl hlisted
  · obtain ⟨j, hj, hget⟩ := List.mem_eraseIdx_iff_getElem?.mp hq
    exact .inr (.inl ⟨j, hj, q, hget, hblob, htorrent⟩)
  · exact .inr (.inr hunseed)

/-- A promotion goes on, and keeps the torrent it sees to unless somebody else does. -/
theorem Sound.goto (h : s.Sound infoHash) (hp : s.tasks[k]? = some p)
    (point : PromotionPoint) (hended : point = .ended → ∀ b, k ∉ s.pending b)
    (htorrent : ∀ id, p.point.torrent = some id →
      point.torrent = some id ∨ s.SeenTo p.blob id k)
    (hlive : s.live = true ∨ point = .ended) : (s.goto k p point).Sound infoHash := by
  have hlt : k < s.tasks.length := (List.getElem?_eq_some_iff.mp hp).1
  have hself : (s.tasks.set k { p with point := point })[k]? = some { p with point := point } :=
    List.getElem?_set_self hlt
  have hother {j : ℕ} (hj : j ≠ k) :
      (s.tasks.set k { p with point := point })[j]? = s.tasks[j]? :=
    List.getElem?_set_ne hj.symm
  -- field by field of `Sound`; task `k` is at its new point and every other task where it was
  refine ⟨h.present, fun b j hj => ?_, h.listed, fun b name id hmem => ?_,
    fun j q hq hq' => ?_, fun u hu j hj => ?_, fun hasleep => ?_⟩
  · obtain ⟨q, hq, hb, hregistered, hne⟩ := h.pending b j hj
    by_cases hjk : j = k
    · subst hjk
      rw [hp] at hq
      obtain rfl := Option.some.inj hq
      exact ⟨_, hself, hb, hregistered, fun hend => hended hend b hj⟩
    · exact ⟨q, (hother hjk).trans hq, hb, hregistered, hne⟩
  · obtain hlisted | ⟨j, q, hq, hb, hid⟩ | hunseed := h.held b name id hmem
    · exact .inl hlisted
    · by_cases hjk : j = k
      · subst hjk
        rw [hp] at hq
        obtain rfl := Option.some.inj hq
        -- the task may let go of its torrent only after another owner has been seen to it
        obtain hkeep | hseen := htorrent id hid
        · exact .inr (.inl ⟨j, _, hself, hb, hkeep⟩)
        · rw [← hb]
          obtain hlisted | ⟨i, hi, q, hq, hb', hid'⟩ | hunseed :=
            hseen.other (List.mem_map_of_mem (f := Prod.fst) hmem)
          · exact .inl hlisted
          · exact .inr (.inl ⟨i, q, (hother hi).trans hq, hb', hid'⟩)
          · exact .inr (.inr hunseed)
      · exact .inr (.inl ⟨j, q, (hother hjk).trans hq, hb, hid⟩)
    · exact .inr (.inr hunseed)
  · by_cases hjk : j = k
    · subst hjk
      replace hq := hself.symm.trans hq
      obtain rfl := Option.some.inj hq
      exact h.aborted j p hp hq'
    · exact h.aborted j q ((hother hjk).symm.trans hq) hq'
  · obtain ⟨q, hq, hregistered, hnot⟩ := h.cancels u hu j hj
    by_cases hjk : j = k
    · subst hjk
      rw [hp] at hq
      obtain rfl := Option.some.inj hq
      exact ⟨_, hself, hregistered, hnot⟩
    · exact ⟨q, (hother hjk).trans hq, hregistered, hnot⟩
  · obtain ⟨hnone, hpoints⟩ := h.asleep hasleep
    refine ⟨hnone, fun q hq => ?_⟩
    obtain hq | rfl := List.mem_or_eq_of_mem_set hq
    · exact hpoints q hq
    · refine .inr (hlive.resolve_left ?_)
      rw [show s.live = false from hasleep]
      exact Bool.false_ne_true

/-- The guard of a promotion keeps the two sides together. -/
theorem Sound.dropGuard (h : s.Sound infoHash) (blob : Text) :
    (s.dropGuard k blob).Sound infoHash := by
  have hsub {b : Text} {j : ℕ} (hj : j ∈ (s.dropGuard k blob).pending b) :
      j ∈ s.pending b := by
    rw [pending_dropGuard] at hj
    split at hj
    · exact List.mem_of_mem_filter hj
    · exact hj
  refine ⟨fun b hb => ?_, fun b j hj => ?_, fun b id hid => ?_, fun b name id hmem => ?_,
    fun j q hq hq' => ?_, fun u hu j hj => ?_, fun hasleep => ?_⟩
  -- an entry left with neither promotion nor torrent is erased, so the entries that stay are not
  -- empty
  · obtain ⟨entry, hentry⟩ := Option.ne_none_iff_exists'.mp hb
    rw [pending_of_lookup hentry, listed_of_lookup hentry]
    unfold SeedRegistry.dropGuard at hentry
    dsimp only at hentry
    split at hentry
    · rename_i old hold
      by_cases hblob : b = blob
      · subst hblob
        split at hentry
        · cases (AList.lookup_erase b s.seeds).symm.trans hentry
        · rename_i hempty
          obtain rfl := Option.some.inj ((AList.lookup_insert s.seeds).symm.trans hentry)
          exact not_and_or.mp hempty
      · have hb' : s.seeds.lookup b = some entry := by
          split at hentry
          · exact (AList.lookup_erase_ne hblob).symm.trans hentry
          · exact (AList.lookup_insert_ne hblob).symm.trans hentry
        have hpresent := h.present b (by rw [hb']; nofun)
        rwa [pending_of_lookup hb', listed_of_lookup hb'] at hpresent
    · have hpresent := h.present b (by rw [hentry]; nofun)
      rwa [pending_of_lookup hentry, listed_of_lookup hentry] at hpresent
  · rw [tasks_dropGuard]
    exact h.pending b j (hsub hj)
  · rw [listed_dropGuard] at hid
    rw [torrents_dropGuard]
    exact h.listed b id hid
  · rw [torrents_dropGuard] at hmem
    unfold Held
    rw [listed_dropGuard, tasks_dropGuard, unseeds_dropGuard]
    exact h.held b name id hmem
  · rw [tasks_dropGuard] at hq
    obtain ⟨hregistered, hnot⟩ := h.aborted j q hq hq'
    exact ⟨hregistered, fun b hb => hnot b (hsub hb)⟩
  · rw [unseeds_dropGuard] at hu
    rw [tasks_dropGuard]
    obtain ⟨q, hq, hregistered, hnot⟩ := h.cancels u hu j hj
    exact ⟨q, hq, hregistered, fun b hb => hnot b (hsub hb)⟩
  · rw [live_dropGuard] at hasleep
    rw [tasks_dropGuard, torrents_dropGuard]
    exact h.asleep hasleep

/-- A promotion ends, when nothing is left to see to. -/
theorem Sound.finish (h : s.Sound infoHash) (hp : s.tasks[k]? = some p)
    (htorrent : ∀ id, p.point.torrent = some id → s.SeenTo p.blob id k) :
    (s.finish k p).Sound infoHash := by
  have hp' : (s.dropGuard k p.blob).tasks[k]? = some p := by rwa [tasks_dropGuard]
  refine h.dropGuard p.blob |>.goto hp' .ended (fun _ b hb => ?_) (fun id hid => .inr ?_)
    (.inr rfl)
  · rw [pending_dropGuard] at hb
    split at hb
    · exact of_decide_eq_true (List.mem_filter.mp hb).2 rfl
    · rename_i hne
      obtain ⟨q, hq, hblob, -⟩ := h.pending b k hb
      rw [hp] at hq
      obtain rfl := Option.some.inj hq
      exact hne hblob.symm
  · unfold SeenTo
    rw [torrents_dropGuard, listed_dropGuard, tasks_dropGuard, unseeds_dropGuard]
    exact htorrent id hid

/-- The session deletes a torrent that is not in the table. -/
theorem Sound.deleteTorrent (h : s.Sound infoHash) {id : ℕ} (hid : s.Unlisted id) :
    (s.deleteTorrent id).Sound infoHash := by
  refine { h with
    listed := fun b id' hid' => ?_
    held := fun b name id' hmem => h.held b name id' (List.mem_of_mem_filter hmem)
    asleep := fun hasleep => ?_ }
  · obtain ⟨name, hname⟩ := h.listed b id' hid'
    refine ⟨name, List.mem_filter.mpr ⟨hname, decide_eq_true ?_⟩⟩
    rintro rfl
    exact hid.not_mem b hid'
  · obtain ⟨hnone, hpoints⟩ := h.asleep hasleep
    refine ⟨?_, hpoints⟩
    show s.torrents.filter _ = []
    rw [hnone]
    rfl

/-- The session comes up. -/
theorem Sound.wake (h : s.Sound infoHash) : Sound infoHash { s with live := true } :=
  { h with asleep := nofun }

/-- A task that has a session. -/
theorem Sound.live (h : s.Sound infoHash) (hp : s.tasks[k]? = some p)
    (hsession : p.point ≠ .session) (hended : p.point ≠ .ended) : s.live = true := by
  by_contra hlive
  obtain ⟨-, hpoints⟩ := h.asleep (Bool.eq_false_iff.mpr hlive)
  obtain heq | heq := hpoints p (List.mem_of_getElem? hp)
  · exact hsession heq
  · exact hended heq

/-- The session has a torrent of a blob when a promotion of the blob is about to see to it. -/
theorem Sound.appendTorrent (h : s.Sound infoHash) (hp : s.tasks[k]? = some p)
    (hadd : p.point = .add) (name : Text) (id : ℕ)
    (hsep : ∀ b name', infoHash b name' = infoHash p.blob name → b = p.blob) :
    Sound infoHash ({ s with torrents := s.torrents ++ [(id, infoHash p.blob name)] }.goto k p
      (.record id)) := by
  have hlive : s.live = true := h.live hp (by rw [hadd]; nofun) (by rw [hadd]; nofun)
  have hgoto : (s.goto k p (.record id)).Sound infoHash :=
    h.goto hp (.record id) nofun (fun id' hid' => by rw [hadd] at hid'; cases hid')
      (.inl hlive)
  refine { hgoto with
    listed := fun b id' hid' => ?_
    held := fun b name' id' hmem => ?_
    asleep := fun hasleep => ?_ }
  · obtain ⟨name', hname'⟩ := hgoto.listed b id' hid'
    exact ⟨name', List.mem_append_left _ hname'⟩
  · obtain hold | hnew := List.mem_append.mp hmem
    · exact hgoto.held b name' id' hold
    · obtain ⟨rfl, hhash⟩ := Prod.mk.inj (List.mem_singleton.mp hnew)
      have hlt : k < s.tasks.length := (List.getElem?_eq_some_iff.mp hp).1
      exact .inr (.inl ⟨k, _, List.getElem?_set_self hlt, (hsep b name' hhash).symm, rfl⟩)
  · cases hlive.symm.trans hasleep

/-- The session adds a promotion's torrent. -/
theorem Sound.addTorrent [DecidableEq Hash] (h : s.Sound infoHash)
    (hp : s.tasks[k]? = some p) (hadd : p.point = .add) (name : Text) (fresh : ℕ)
    (hsep : ∀ b name', infoHash b name' = infoHash p.blob name → b = p.blob) :
    (s.addTorrent k p (infoHash p.blob name) fresh).Sound infoHash := by
  unfold SeedRegistry.addTorrent
  split
  · exact h.goto hp _ nofun (fun id hid => by rw [hadd] at hid; cases hid)
      (.inl (h.live hp (by rw [hadd]; nofun) (by rw [hadd]; nofun)))
  · split
    · exact h
    · exact h.appendTorrent hp hadd name fresh hsep

/-- A torrent that is in the session is put into the table, in a promotion's place. -/
theorem Sound.list (h : s.Sound infoHash) {blob name : Text} {entry : SeedEntry}
    (hentry : s.seeds.lookup blob = some entry) (k : ℕ) {id : ℕ}
    (hin : (id, infoHash blob name) ∈ s.torrents) :
    Sound infoHash { s with
      seeds := s.seeds.insert blob ⟨entry.promotions.filter (· ≠ k), entry.torrentIds ++ [id]⟩ } := by
  -- listing a torrent takes its task off the pending ones and adds none
  have hsub {b : Text} {j : ℕ} (hj : j ∈ SeedRegistry.pending { s with
      seeds := s.seeds.insert blob
        ⟨entry.promotions.filter (· ≠ k), entry.torrentIds ++ [id]⟩ } b) : j ∈ s.pending b := by
    rw [pending_insert] at hj
    split at hj
    · rename_i hb
      rw [hb, pending_of_lookup hentry]
      exact List.mem_of_mem_filter hj
    · exact hj
  refine { h with
    present := fun b hb => ?_
    pending := fun b j hj => h.pending b j (hsub hj)
    listed := fun b id' hid' => ?_
    held := fun b name' id' hmem => ?_
    aborted := fun j q hq hq' => ?_
    cancels := fun u hu j hj => ?_ }
  · rw [pending_insert, listed_insert]
    by_cases hblob : b = blob
    · rw [if_pos hblob, if_pos hblob]
      exact .inr (List.append_ne_nil_of_right_ne_nil _ (List.cons_ne_nil id []))
    · rw [if_neg hblob, if_neg hblob]
      exact h.present b fun hnone => hb ((AList.lookup_insert_ne hblob).trans hnone)
  · rw [listed_insert] at hid'
    split at hid'
    · rename_i hb
      obtain hold | hnew := List.mem_append.mp hid'
      · rw [hb]
        exact h.listed blob id' (by rwa [listed_of_lookup hentry])
      · rw [hb, List.mem_singleton.mp hnew]
        exact ⟨name, hin⟩
    · exact h.listed b id' hid'
  · obtain hlisted | hheld := h.held b name' id' hmem
    · refine .inl ?_
      rw [listed_insert]
      split
      · rename_i hb
        rw [hb, listed_of_lookup hentry] at hlisted
        exact List.mem_append_left _ hlisted
      · exact hlisted
    · exact .inr hheld
  · obtain ⟨hregistered, hnot⟩ := h.aborted j q hq hq'
    exact ⟨hregistered, fun b hb => hnot b (hsub hb)⟩
  · obtain ⟨q, hq, hregistered, hnot⟩ := h.cancels u hu j hj
    exact ⟨q, hq, hregistered, fun b hb => hnot b (hsub hb)⟩

/-- **A promotion records its torrent**, which is in the session, or finds that it is not
wanted. -/
theorem Sound.record (h : s.Sound infoHash) (hp : s.tasks[k]? = some p) {id : ℕ}
    (hpoint : p.point = .record id)
    (hmem : p.wanted = true → (s.seeds.lookup p.blob).isSome = true →
      (id, infoHash p.blob (seedFileName p.name)) ∈ s.torrents) :
    (s.record k p id).Sound infoHash := by
  have hlive : s.live = true := h.live hp (by rw [hpoint]; nofun) (by rw [hpoint]; nofun)
  have hrollback : (s.goto k p (.rollback id)).Sound infoHash := by
    refine h.goto hp _ nofun (fun id' hid' => .inl ?_) (.inl hlive)
    rw [hpoint] at hid'
    exact hid'
  unfold SeedRegistry.record
  split
  · rename_i entry hentry
    split
    · rename_i hwanted
      have hin := hmem hwanted (by rw [hentry]; rfl)
      refine (h.list hentry k hin).goto hp .resume nofun (fun id' hid' => .inr ?_)
        (.inl hlive)
      rw [hpoint] at hid'
      obtain rfl := Option.some.inj hid'
      refine .inr (.inl ?_)
      rw [listed_insert, if_pos rfl]
      exact List.mem_append_right _ (List.mem_singleton_self id)
    · exact hrollback
  · exact hrollback

/-- A promotion is spawned. -/
theorem Sound.spawn (h : s.Sound infoHash) (blob name : Text) : Sound infoHash
    { s with tasks := s.tasks ++ [⟨blob, name, true, false, false, .session⟩] } := by
  have hold {j : ℕ} {q new : Promotion} (hq : s.tasks[j]? = some q) :
      (s.tasks ++ [new])[j]? = some q :=
    (List.getElem?_append_left (List.getElem?_eq_some_iff.mp hq).1).trans hq
  refine { h with
    pending := fun b j hj => ?_
    held := fun b name' id hmem => ?_
    aborted := fun j q hq hq' => ?_
    cancels := fun u hu j hj => ?_
    asleep := fun hasleep => ?_ }
  · obtain ⟨q, hq, hrest⟩ := h.pending b j hj
    exact ⟨q, hold hq, hrest⟩
  · obtain hlisted | ⟨j, q, hq, hrest⟩ | hunseed := h.held b name' id hmem
    · exact .inl hlisted
    · exact .inr (.inl ⟨j, q, hold hq, hrest⟩)
    · exact .inr (.inr hunseed)
  · by_cases hlt : j < s.tasks.length
    · exact h.aborted j q ((List.getElem?_append_left hlt).symm.trans hq) hq'
    · replace hq : (s.tasks ++ [_])[j]? = some q := hq
      rw [List.getElem?_append_right (Nat.le_of_not_lt hlt), List.getElem?_singleton] at hq
      split at hq
      · obtain rfl := Option.some.inj hq
        cases hq'
      · cases hq
  · obtain ⟨q, hq, hrest⟩ := h.cancels u hu j hj
    exact ⟨q, hold hq, hrest⟩
  · obtain ⟨hnone, hpoints⟩ := h.asleep hasleep
    refine ⟨hnone, fun q hq => ?_⟩
    obtain hq | hq := List.mem_append.mp hq
    · exact hpoints q hq
    · exact .inl (by rw [List.mem_singleton.mp hq])

/-- A promotion is changed, but not in what the table and the session know of it. -/
theorem Sound.setTask (h : s.Sound infoHash) (hp : s.tasks[k]? = some p) (p' : Promotion)
    (hblob : p'.blob = p.blob) (hpoint : p'.point = p.point)
    (hregistered : p.registered = true → p'.registered = true)
    (haborted : p'.aborted = true → p.aborted = true ∨
      p.registered = true ∧ ∀ b, k ∉ s.pending b) :
    Sound infoHash { s with tasks := s.tasks.set k p' } := by
  have hlt : k < s.tasks.length := (List.getElem?_eq_some_iff.mp hp).1
  have hself : (s.tasks.set k p')[k]? = some p' := List.getElem?_set_self hlt
  have hother {j : ℕ} (hj : j ≠ k) : (s.tasks.set k p')[j]? = s.tasks[j]? :=
    List.getElem?_set_ne hj.symm
  -- the promotion keeps its blob and its point, so only the facts about registration and abortion
  -- are at stake
  refine { h with
    pending := fun b j hj => ?_
    held := fun b name id hmem => ?_
    aborted := fun j q hq hq' => ?_
    cancels := fun u hu j hj => ?_
    asleep := fun hasleep => ?_ }
  · obtain ⟨q, hq, hb, hreg, hne⟩ := h.pending b j hj
    by_cases hjk : j = k
    · subst hjk
      rw [hp] at hq
      obtain rfl := Option.some.inj hq
      exact ⟨p', hself, hblob.trans hb, hregistered hreg, hpoint ▸ hne⟩
    · exact ⟨q, (hother hjk).trans hq, hb, hreg, hne⟩
  · obtain hlisted | ⟨j, q, hq, hb, hid⟩ | hunseed := h.held b name id hmem
    · exact .inl hlisted
    · by_cases hjk : j = k
      · subst hjk
        rw [hp] at hq
        obtain rfl := Option.some.inj hq
        exact .inr (.inl ⟨j, p', hself, hblob.trans hb, hpoint ▸ hid⟩)
      · exact .inr (.inl ⟨j, q, (hother hjk).trans hq, hb, hid⟩)
    · exact .inr (.inr hunseed)
  · by_cases hjk : j = k
    · subst hjk
      obtain rfl := Option.some.inj (hself.symm.trans hq)
      have hold : p.registered = true ∧ ∀ b, j ∉ s.pending b := by
        obtain hbefore | hnow := haborted hq'
        · exact h.aborted j p hp hbefore
        · exact hnow
      exact ⟨hregistered hold.1, hold.2⟩
    · exact h.aborted j q ((hother hjk).symm.trans hq) hq'
  · obtain ⟨q, hq, hreg, hnot⟩ := h.cancels u hu j hj
    by_cases hjk : j = k
    · subst hjk
      rw [hp] at hq
      obtain rfl := Option.some.inj hq
      exact ⟨p', hself, hregistered hreg, hnot⟩
    · exact ⟨q, (hother hjk).trans hq, hreg, hnot⟩
  · obtain ⟨hnone, hpoints⟩ := h.asleep hasleep
    refine ⟨hnone, fun q hq => ?_⟩
    obtain hq | rfl := List.mem_or_eq_of_mem_set hq
    · exact hpoints q hq
    · rw [hpoint]
      exact hpoints p (List.mem_of_getElem? hp)

/-- **A promotion is put into the table** before it ends. -/
theorem Sound.register (h : s.Sound infoHash) (hp : s.tasks[k]? = some p)
    (hnot : p.registered = false) (hended : p.point ≠ .ended) : Sound infoHash
    { s with
      seeds := s.seeds.insert p.blob
        ⟨((s.seeds.lookup p.blob).getD ⟨[], []⟩).promotions ++ [k],
          ((s.seeds.lookup p.blob).getD ⟨[], []⟩).torrentIds⟩
      tasks := s.tasks.set k { p with registered := true } } := by
  have hset := h.setTask hp { p with registered := true } rfl rfl (fun _ => rfl) .inl
  have hself : (s.tasks.set k { p with registered := true })[k]? =
      some { p with registered := true } :=
    List.getElem?_set_self (List.getElem?_eq_some_iff.mp hp).1
  have hpromotions : ((s.seeds.lookup p.blob).getD ⟨[], []⟩).promotions = s.pending p.blob := by
    unfold SeedRegistry.pending
    cases s.seeds.lookup p.blob <;> rfl
  have htorrentIds : ((s.seeds.lookup p.blob).getD ⟨[], []⟩).torrentIds = s.listed p.blob := by
    unfold SeedRegistry.listed
    cases s.seeds.lookup p.blob <;> rfl
  rw [hpromotions, htorrentIds]
  have hlisted (b : Text) : SeedRegistry.listed { s with
      seeds := s.seeds.insert p.blob ⟨s.pending p.blob ++ [k], s.listed p.blob⟩ } b =
      s.listed b := by
    rw [listed_insert]
    split
    · rename_i hb
      rw [hb]
    · rfl
  have hpending {b : Text} {j : ℕ} (hj : j ∈ SeedRegistry.pending { s with
      seeds := s.seeds.insert p.blob ⟨s.pending p.blob ++ [k], s.listed p.blob⟩ } b) :
      j ∈ s.pending b ∨ j = k ∧ b = p.blob := by
    rw [pending_insert] at hj
    split at hj
    · rename_i hb
      obtain hold | hnew := List.mem_append.mp hj
      · exact .inl (hb ▸ hold)
      · exact .inr ⟨List.mem_singleton.mp hnew, hb⟩
    · exact .inl hj
  -- what was cancelled is in the table no more, and this promotion never was
  have hkeep {j : ℕ} (hjk : j ≠ k) (hold : ∀ b, j ∉ s.pending b) (b : Text) :
      j ∉ SeedRegistry.pending { s with
        seeds := s.seeds.insert p.blob ⟨s.pending p.blob ++ [k], s.listed p.blob⟩ } b :=
    fun hj => (hpending hj).elim (hold b) fun heq => hjk heq.1
  refine { hset with
    present := fun b hb => ?_
    pending := fun b j hj => ?_
    listed := fun b id hid => h.listed b id (hlisted b ▸ hid)
    held := fun b name id hmem => ?_
    aborted := fun j q hq hq' => ?_
    cancels := fun u hu j hj => ?_ }
  · show SeedRegistry.pending { s with
        seeds := s.seeds.insert p.blob ⟨s.pending p.blob ++ [k], s.listed p.blob⟩ } b ≠ [] ∨
      SeedRegistry.listed { s with
        seeds := s.seeds.insert p.blob ⟨s.pending p.blob ++ [k], s.listed p.blob⟩ } b ≠ []
    rw [pending_insert, listed_insert]
    by_cases hblob : b = p.blob
    · rw [if_pos hblob, if_pos hblob]
      exact .inl (List.append_ne_nil_of_right_ne_nil _ (List.cons_ne_nil k []))
    · rw [if_neg hblob, if_neg hblob]
      exact h.present b fun hnone => hb ((AList.lookup_insert_ne hblob).trans hnone)
  · obtain hold | ⟨rfl, rfl⟩ := hpending hj
    · exact hset.pending b j hold
    · exact ⟨_, hself, rfl, rfl, hended⟩
  · obtain hold | hheld := hset.held b name id hmem
    · exact .inl ((hlisted b).symm ▸ hold)
    · exact .inr hheld
  · have hjk : j ≠ k := by
      rintro rfl
      obtain rfl := Option.some.inj (hself.symm.trans hq)
      cases hnot.symm.trans (h.aborted j p hp hq').1
    obtain ⟨hregistered, hold⟩ := hset.aborted j q hq hq'
    exact ⟨hregistered, hkeep hjk hold⟩
  · obtain ⟨q, hq, hregistered, hold⟩ := h.cancels u hu j hj
    have hjk : j ≠ k := by
      rintro rfl
      rw [hp] at hq
      obtain rfl := Option.some.inj hq
      cases hnot.symm.trans hregistered
    exact ⟨q, (List.getElem?_set_ne hjk.symm).trans hq, hregistered, hkeep hjk hold⟩

/-- **A blob's entry is taken out**, with torrents to delete if it lists any. -/
theorem Sound.takeOut (h : s.Sound infoHash) (blob : Text) (deletes : Bool)
    (hdeletes : deletes = true ∨ s.listed blob = []) : (s.takeOut blob deletes).Sound infoHash := by
  unfold SeedRegistry.takeOut
  split
  · rename_i entry hentry
    -- what is pending after the removal was pending before, under another blob
    have hsub {b : Text} {j : ℕ}
        (hj : j ∈ SeedRegistry.pending { s with seeds := s.seeds.erase blob } b) :
        j ∈ s.pending b ∧ b ≠ blob := by
      rw [pending_erase] at hj
      split at hj
      · cases hj
      · rename_i hb
        exact ⟨hj, hb⟩
    refine { h with
      present := fun b hb => ?_
      pending := fun b j hj => h.pending b j (hsub hj).1
      listed := fun b id hid => ?_
      held := fun b name id hmem => ?_
      aborted := fun j q hq hq' => ?_
      cancels := fun u hu j hj => ?_ }
    · have hne : b ≠ blob := fun heq => hb (heq ▸ AList.lookup_erase blob s.seeds)
      show SeedRegistry.pending { s with seeds := s.seeds.erase blob } b ≠ [] ∨
        SeedRegistry.listed { s with seeds := s.seeds.erase blob } b ≠ []
      rw [pending_erase, listed_erase, if_neg hne, if_neg hne]
      exact h.present b fun hnone => hb ((AList.lookup_erase_ne hne).trans hnone)
    · replace hid : id ∈ SeedRegistry.listed { s with seeds := s.seeds.erase blob } b := hid
      rw [listed_erase] at hid
      split at hid
      · cases hid
      · exact h.listed b id hid
    -- a torrent the entry listed is now held by the unseed that took the entry out
    · obtain hlisted | htask | ⟨u, hu, hb, hid⟩ := h.held b name id hmem
      · by_cases hb : b = blob
        · subst hb
          refine .inr (.inr ⟨_, List.mem_append_right _ (List.mem_singleton_self _), rfl, ?_⟩)
          have hids : deletes = true :=
            hdeletes.resolve_right fun hnone => by rw [hnone] at hlisted; cases hlisted
          rw [if_pos hids, ← listed_of_lookup hentry]
          exact hlisted
        · refine .inl ?_
          show id ∈ SeedRegistry.listed { s with seeds := s.seeds.erase blob } b
          rwa [listed_erase, if_neg hb]
      · exact .inr (.inl htask)
      · exact .inr (.inr ⟨u, List.mem_append_left _ hu, hb, hid⟩)
    · obtain ⟨hregistered, hnot⟩ := h.aborted j q hq hq'
      exact ⟨hregistered, fun b hb => hnot b (hsub hb).1⟩
    · obtain hu | hu := List.mem_append.mp hu
      · obtain ⟨q, hq, hregistered, hnot⟩ := h.cancels u hu j hj
        exact ⟨q, hq, hregistered, fun b hb => hnot b (hsub hb).1⟩
      · rw [List.mem_singleton.mp hu] at hj
        rw [← pending_of_lookup hentry] at hj
        obtain ⟨q, hq, hblob, hregistered, -⟩ := h.pending blob j hj
        refine ⟨q, hq, hregistered, fun b hb => (hsub hb).2 ?_⟩
        obtain ⟨q', hq', hblob', -⟩ := h.pending b j (hsub hb).1
        rw [hq] at hq'
        rw [← hblob', ← hblob, Option.some.inj hq']
  · exact h

/-- A call has less left to do, and what it no longer deletes is not in the session. -/
theorem Sound.setUnseed (h : s.Sound infoHash) {i : ℕ} {u : Unseed}
    (hu : s.unseeds[i]? = some u) (u' : Unseed) (hblob : u'.blob = u.blob)
    (hcancels : ∀ k ∈ u'.cancels, k ∈ u.cancels)
    (hdeletes : ∀ id ∈ u.deletes, id ∈ u'.deletes ∨ id ∉ s.torrents.map Prod.fst) :
    Sound infoHash { s with unseeds := s.unseeds.set i u' } := by
  have hlt : i < s.unseeds.length := (List.getElem?_eq_some_iff.mp hu).1
  refine { h with
    held := fun b name id hmem => ?_
    cancels := fun v hv j hj => ?_ }
  · obtain hlisted | htask | ⟨v, hv, hb, hid⟩ := h.held b name id hmem
    · exact .inl hlisted
    · exact .inr (.inl htask)
    · refine .inr (.inr ?_)
      obtain ⟨n, hn⟩ := List.getElem?_of_mem hv
      by_cases hni : n = i
      · subst hni
        rw [hu] at hn
        obtain rfl := Option.some.inj hn
        refine ⟨u', List.mem_of_getElem? (List.getElem?_set_self hlt), hblob.trans hb, ?_⟩
        exact (hdeletes id hid).resolve_right fun hgone =>
          hgone (List.mem_map_of_mem (f := Prod.fst) hmem)
      · exact ⟨v, List.mem_of_getElem? ((List.getElem?_set_ne (Ne.symm hni)).trans hn), hb, hid⟩
  · obtain hv | rfl := List.mem_or_eq_of_mem_set hv
    · exact h.cancels v hv j hj
    · exact h.cancels u (List.mem_of_getElem? hu) j (hcancels j hj)

theorem Sound.cancelNext (h : s.Sound infoHash) {i : ℕ} {u : Unseed}
    (hu : s.unseeds[i]? = some u) : (s.cancelNext i u).Sound infoHash := by
  unfold SeedRegistry.cancelNext
  split
  · rename_i k cancels hcancels
    have hset := h.setUnseed hu { u with cancels := cancels } rfl
      (fun j hj => by rw [hcancels]; exact List.mem_cons_of_mem k hj) (fun id hid => .inl hid)
    obtain ⟨p, hp, hregistered, hnot⟩ :=
      h.cancels u (List.mem_of_getElem? hu) k (by rw [hcancels]; exact List.mem_cons_self)
    unfold cancelTask
    split
    · rename_i q hq
      rw [show s.tasks[k]? = some q from hq] at hp
      obtain rfl := Option.some.inj hp
      exact hset.setTask hq _ rfl rfl id fun _ => .inr ⟨hregistered, hnot⟩
    · exact hset
  · exact h

theorem Sound.deleteNext (h : s.Sound infoHash) {i : ℕ} {u : Unseed}
    (hu : s.unseeds[i]? = some u) (ok : Bool)
    (hunlisted : u.cancels = [] → ∀ id ∈ u.deletes.head?, s.Unlisted id) :
    (s.deleteNext i u ok).Sound infoHash := by
  unfold SeedRegistry.deleteNext
  split
  · rename_i id deletes hcancels hdeletes
    split
    · have hdelete := h.deleteTorrent (hunlisted hcancels id (by rw [hdeletes]; rfl))
      refine (hdelete.setUnseed hu { u with deletes := deletes } rfl (fun j hj => hj)
        fun id' hid' => ?_).wake
      rw [hdeletes] at hid'
      obtain rfl | hrest := List.mem_cons.mp hid'
      · refine .inr fun hmem => ?_
        obtain ⟨torrent, htorrent, heq⟩ := List.mem_map.mp hmem
        exact of_decide_eq_true (List.mem_filter.mp htorrent).2 heq
      · exact .inl hrest
    · rename_i hlive
      refine h.setUnseed hu { u with deletes := [] } rfl (fun j hj => hj) fun id' _ => .inr ?_
      have hasleep : s.live = false := by
        cases hs : s.live with
        | true => exact absurd (by rw [hs]; rfl) hlive
        | false => rfl
      rw [(h.asleep hasleep).1]
      exact List.not_mem_nil
  · exact h

section Steps

variable [DecidableEq Hash]

/-- **A promotion's step keeps the two sides together.** -/
theorem Sound.advance (h : s.Sound infoHash) (hp : s.tasks[k]? = some p) (ok : Bool)
    (fresh : ℕ)
    (hsep : ∀ b b' name name', infoHash b name = infoHash b' name' → b = b')
    (hsafe : s.SafeAdvance infoHash k ok p) :
    (s.advance infoHash k p ok fresh).Sound infoHash := by
  -- a promotion that has no torrent to see to goes on, or ends
  have hnext (hnone : p.point.torrent = none) (hlive : s.live = true)
      (point : PromotionPoint) (hpoint : point ≠ .ended) : (s.goto k p point).Sound infoHash :=
    h.goto hp point (fun heq => absurd heq hpoint) (fun id hid => by rw [hnone] at hid; cases hid)
      (.inl hlive)
  have hfinish (hnone : p.point.torrent = none) : (s.finish k p).Sound infoHash :=
    h.finish hp fun id hid => by rw [hnone] at hid; cases hid
  unfold SafeAdvance at hsafe
  unfold SeedRegistry.advance
  cases hpoint : p.point with
  | session =>
    rw [hpoint] at hsafe
    dsimp only at hsafe ⊢
    split
    · exact h.wake.goto hp .link nofun (fun id hid => by rw [hpoint] at hid; cases hid)
        (.inl rfl)
    · rename_i hdead
      obtain ⟨-, hnot⟩ := hsafe.resolve_left hdead
      refine h.goto hp .ended (fun _ b hb => ?_) (fun id hid => by rw [hpoint] at hid; cases hid)
        (.inr rfl)
      obtain ⟨q, hq, hblob, -⟩ := h.pending b k hb
      rw [hp] at hq
      obtain rfl := Option.some.inj hq
      exact hnot (hblob ▸ hb)
  | link =>
    have hlive := h.live hp (by rw [hpoint]; nofun) (by rw [hpoint]; nofun)
    dsimp only
    split
    · exact hnext (by rw [hpoint]; rfl) hlive .create nofun
    · exact hfinish (by rw [hpoint]; rfl)
  | create =>
    have hlive := h.live hp (by rw [hpoint]; nofun) (by rw [hpoint]; nofun)
    dsimp only
    split
    · exact hnext (by rw [hpoint]; rfl) hlive .check nofun
    · exact hfinish (by rw [hpoint]; rfl)
  | check =>
    have hlive := h.live hp (by rw [hpoint]; nofun) (by rw [hpoint]; nofun)
    dsimp only
    split
    · exact hnext (by rw [hpoint]; rfl) hlive .add nofun
    · exact hfinish (by rw [hpoint]; rfl)
  | add =>
    dsimp only
    split
    · exact h.addTorrent hp hpoint _ fresh fun b name' heq => hsep b p.blob _ _ heq
    · exact hfinish (by rw [hpoint]; rfl)
  | record id =>
    rw [hpoint] at hsafe
    exact h.record hp hpoint hsafe
  | rollback id =>
    rw [hpoint] at hsafe
    refine (h.deleteTorrent hsafe).finish hp fun id' hid' => .inl fun hmem => ?_
    rw [hpoint] at hid'
    obtain rfl := Option.some.inj hid'
    obtain ⟨torrent, htorrent, heq⟩ := List.mem_map.mp hmem
    exact of_decide_eq_true (List.mem_filter.mp htorrent).2 heq
  | resume => exact hfinish (by rw [hpoint]; rfl)
  | ended => exact h

omit [DecidableEq Hash] in
/-- Dropping a promotion whose torrent somebody else sees to. -/
theorem Sound.dropAt (h : s.Sound infoHash) (hp : s.tasks[k]? = some p)
    (haborted : p.aborted = true) (hseen : ∀ id ∈ p.point.torrent, s.SeenTo p.blob id k) :
    (s.dropAt k p).Sound infoHash := by
  unfold SeedRegistry.dropAt
  split
  · rename_i hpoint
    exact h.goto hp .ended (fun _ => (h.aborted k p hp haborted).2)
      (fun id hid => by rw [hpoint] at hid; cases hid) (.inr rfl)
  · exact h
  · exact h
  · exact h.finish hp fun id hid => hseen id hid

/-- **Every step that meets the condition keeps the two sides together.** -/
theorem Sound.step (hsep : ∀ b b' name name', infoHash b name = infoHash b' name' → b = b')
    (h : s.Sound infoHash) (event : SeedEvent) (hsafe : s.Safe infoHash event) :
    (s.step infoHash event).Sound infoHash := by
  -- one lemma per event; `hsafe` is asked only where the code lets another party in: at the
  -- registration, at a step of a task, at its drop, and at the deletion that ends an unseed
  cases event with
  | seedBlob blob name => exact h.spawn blob name
  | register k =>
    unfold SeedRegistry.step
    dsimp only
    split
    · rename_i p hp
      split
      · exact h
      · rename_i hnot
        have hnot := Bool.eq_false_iff.mpr hnot
        exact h.register hp hnot (hsafe p hp hnot)
    · exact h
  | advance k ok fresh =>
    unfold SeedRegistry.step
    dsimp only
    split
    · rename_i p hp
      exact h.advance hp ok fresh hsep (hsafe p hp)
    · exact h
  | dropTask k =>
    unfold SeedRegistry.step
    dsimp only
    split
    · rename_i p hp
      split
      · rename_i haborted
        exact h.dropAt hp haborted (hsafe p hp haborted)
      · exact h
    · exact h
  | unseed blob => exact h.takeOut blob true (.inl rfl)
  -- without a runtime the session is not asked to delete, which is harmless only when nothing of
  -- the blob is listed
  | unseedDetached blob runtime =>
    refine h.takeOut blob _ ?_
    obtain hruntime | hnone := hsafe
    · cases hlive : s.live with
      | true => exact .inl (by rw [hruntime]; rfl)
      | false =>
        refine .inr (List.eq_nil_iff_forall_not_mem.mpr fun id hid => ?_)
        obtain ⟨name, hname⟩ := h.listed blob id hid
        rw [(h.asleep hlive).1] at hname
        cases hname
    · exact .inr hnone
  | cancel i =>
    unfold SeedRegistry.step
    dsimp only
    split
    · rename_i u hu
      exact h.cancelNext hu
    · exact h
  | delete i ok =>
    unfold SeedRegistry.step
    dsimp only
    split
    · rename_i u hu
      exact h.deleteNext hu ok (hsafe u hu)
    · exact h

end Steps

/-! ## What the table is worth -/

/-- Where nothing of a blob is on its way, the table lists its torrents. -/
theorem Sound.mem_listed (h : s.Sound infoHash) {blob : Text} (hquiet : s.Quiet blob) (id : ℕ) :
    id ∈ s.listed blob ↔ ∃ name, (id, infoHash blob name) ∈ s.torrents := by
  refine ⟨h.listed blob id, fun ⟨name, hname⟩ => ?_⟩
  obtain hlisted | ⟨k, p, hp, hblob, hid⟩ | ⟨u, hu, hblob, hid⟩ := h.held blob name id hname
  · exact hlisted
  · rw [hquiet.1 p (List.mem_of_getElem? hp) hblob] at hid
    cases hid
  · rw [hquiet.2 u hu hblob] at hid
    cases hid

/-- And it has an entry for the blob only if it lists torrents. -/
theorem Sound.isSome_lookup (h : s.Sound infoHash) {blob : Text} (hquiet : s.Quiet blob) :
    (s.seeds.lookup blob).isSome = true ↔ s.listed blob ≠ [] := by
  constructor
  · intro hsome
    have hpresent := h.present blob fun hnone => by rw [hnone] at hsome; cases hsome
    refine hpresent.resolve_left fun hpending => hpending ?_
    refine List.eq_nil_iff_forall_not_mem.mpr fun k hk => ?_
    obtain ⟨p, hp, hblob, -, hended⟩ := h.pending blob k hk
    exact hended (hquiet.1 p (List.mem_of_getElem? hp) hblob)
  · intro hne
    cases hlookup : s.seeds.lookup blob with
    | some entry => rfl
    | none => exact absurd (listed_of_none hlookup) hne

end SeedRegistry

open SeedRegistry

variable {Hash : Type} [DecidableEq Hash]

/-- **The registry of seeds agrees with the session.** Where torrents of different blobs
have different info-hashes, and in every run of calls, promotions and drops in which
every step meets the condition: whenever nothing of a blob is on its way, the table has an
entry for it if and only if a torrent of it is in the session, and lists those torrents. -/
theorem seeds_match_session (infoHash : Text → Text → Hash)
    (hsep : ∀ b b' name name', infoHash b name = infoHash b' name' → b = b')
    (run : List SeedEvent)
    (hsafe : Along (step infoHash) (Safe infoHash) run (new : SeedRegistry Hash)) (blob : Text)
    (hquiet : (run.foldl (step infoHash) new).Quiet blob) :
    (((run.foldl (step infoHash) new).seeds.lookup blob).isSome = true ↔
      (run.foldl (step infoHash) new).Seeds infoHash blob) ∧
    ∀ id, id ∈ (run.foldl (step infoHash) new).listed blob ↔
      ∃ name, (id, infoHash blob name) ∈ (run.foldl (step infoHash) new).torrents := by
  have hsound : (run.foldl (step infoHash) new).Sound infoHash :=
    Along.invariant (fun s event hs hevent => hs.step hsep event hevent) sound_new hsafe
  refine ⟨?_, hsound.mem_listed hquiet⟩
  rw [hsound.isSome_lookup hquiet]
  constructor
  · intro hne
    obtain ⟨id, hid⟩ := List.exists_mem_of_ne_nil _ hne
    exact ⟨id, (hsound.mem_listed hquiet id).mp hid⟩
  · rintro ⟨id, name, hname⟩ hnil
    have hid := (hsound.mem_listed hquiet id).mpr ⟨name, hname⟩
    rw [hnil] at hid
    cases hid

instance decidableUnlisted (s : SeedRegistry Hash) (id : ℕ) : Decidable (s.Unlisted id) :=
  inferInstanceAs (Decidable (∀ _ ∈ _, _))

instance decidableSeenTo (s : SeedRegistry Hash) (blob : Text) (id k : ℕ) :
    Decidable (s.SeenTo blob id k) :=
  inferInstanceAs (Decidable (_ ∨ _ ∨ (∃ _ ∈ _, _) ∨ ∃ _ ∈ _, _))

instance decidableQuiet (s : SeedRegistry Hash) (blob : Text) : Decidable (s.Quiet blob) :=
  inferInstanceAs (Decidable ((∀ _ ∈ _, _ → _) ∧ ∀ _ ∈ _, _ → _))

instance decidableSafeAdvance (infoHash : Text → Text → Hash) (s : SeedRegistry Hash) (k : ℕ)
    (ok : Bool) : ∀ p : Promotion, Decidable (s.SafeAdvance infoHash k ok p)
  | ⟨_, _, _, _, _, .session⟩ => inferInstanceAs (Decidable (_ ∨ _ ∧ _))
  | ⟨_, _, _, _, _, .record _⟩ => inferInstanceAs (Decidable (_ → _ → _))
  | ⟨_, _, _, _, _, .rollback id⟩ => decidableUnlisted s id
  | ⟨_, _, _, _, _, .link⟩ => .isTrue trivial
  | ⟨_, _, _, _, _, .create⟩ => .isTrue trivial
  | ⟨_, _, _, _, _, .check⟩ => .isTrue trivial
  | ⟨_, _, _, _, _, .add⟩ => .isTrue trivial
  | ⟨_, _, _, _, _, .resume⟩ => .isTrue trivial
  | ⟨_, _, _, _, _, .ended⟩ => .isTrue trivial

instance decidableSafe (infoHash : Text → Text → Hash) (s : SeedRegistry Hash) :
    ∀ event : SeedEvent, Decidable (s.Safe infoHash event)
  | .register _ => inferInstanceAs (Decidable (∀ _ ∈ _, _ → _))
  | .advance _ _ _ => inferInstanceAs (Decidable (∀ _ ∈ _, _))
  | .dropTask _ => inferInstanceAs (Decidable (∀ _ ∈ _, _ → ∀ _ ∈ _, _))
  | .unseedDetached _ _ => inferInstanceAs (Decidable (_ ∨ _))
  | .delete _ _ => inferInstanceAs (Decidable (∀ _ ∈ _, _ → ∀ _ ∈ _, _))
  | .seedBlob _ _ => .isTrue trivial
  | .unseed _ => .isTrue trivial
  | .cancel _ => .isTrue trivial

/-- One blob is seeded; another is unseeded while it is on its way. -/
def seededAndUnseeded : List SeedEvent :=
  [.seedBlob ['a'] "m/a.gguf".toList, .register 0, .advance 0 true 0, .advance 0 true 0,
    .advance 0 true 0, .advance 0 true 0, .advance 0 true 7, .advance 0 true 0,
    .advance 0 true 0, .seedBlob ['b'] "m/b.gguf".toList, .register 1, .advance 1 true 0,
    .advance 1 true 0, .unseed ['b'], .cancel 0, .dropTask 1]

/-- The first has a torrent and the second does not. -/
theorem seeded_and_unseeded :
    let s := seededAndUnseeded.foldl (step Prod.mk) (new : SeedRegistry (Text × Text))
    ((s.seeds.lookup ['a']).isSome = true ↔ s.Seeds Prod.mk ['a']) ∧
      ((s.seeds.lookup ['b']).isSome = true ↔ s.Seeds Prod.mk ['b']) := by
  have hsep (b b' name name' : Text) (h : (b, name) = (b', name')) : b = b' :=
    congrArg Prod.fst h
  have hsafe : Along (step Prod.mk) (Safe Prod.mk) seededAndUnseeded
      (new : SeedRegistry (Text × Text)) := by
    decide +kernel
  exact ⟨(seeds_match_session Prod.mk hsep _ hsafe ['a'] (by decide +kernel)).1,
    (seeds_match_session Prod.mk hsep _ hsafe ['b'] (by decide +kernel)).1⟩

/-- The session does not start for a promotion, which then ends before it has a guard to drop. -/
def sessionFails : List SeedEvent :=
  [.seedBlob ['a'] "m/a.gguf".toList, .register 0, .advance 0 false 0]

/-- A blob is unseeded when its torrent was just added, before the promotion has put it into
the table of seeds. -/
def unseededAtAdd : List SeedEvent :=
  [.seedBlob ['a'] "m/a.gguf".toList, .register 0, .advance 0 true 0, .advance 0 true 0,
    .advance 0 true 0, .advance 0 true 0, .advance 0 true 7, .unseed ['a'], .cancel 0,
    .dropTask 0]

/-- **A failed promotion leaves a seed that is none**, and an unseed leaves a torrent. -/
theorem phantom_seed :
    (let s := sessionFails.foldl (step Prod.mk) (new : SeedRegistry (Text × Text))
     s.Quiet ['a'] ∧ (s.seeds.lookup ['a']).isSome = true ∧ ¬ s.Seeds Prod.mk ['a']) ∧
    (let s := unseededAtAdd.foldl (step Prod.mk) (new : SeedRegistry (Text × Text))
     s.Quiet ['a'] ∧ s.seeds.lookup ['a'] = none ∧ s.Seeds Prod.mk ['a']) := by
  refine ⟨⟨by decide +kernel, by decide +kernel, ?_⟩, by decide +kernel, by decide +kernel,
    7, "a.gguf".toList, by decide +kernel⟩
  rintro ⟨id, name, hmem⟩
  have hnone : (sessionFails.foldl (step Prod.mk)
      (new : SeedRegistry (Text × Text))).torrents = [] := by
    decide +kernel
  rw [hnone] at hmem
  cases hmem

end Atlas
