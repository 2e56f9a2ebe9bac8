import Atlas.EngineRule

/-!
# Who has a failure on record

The health table counts the integrity failures of a source and bans it, and the
quarantine table keeps what it left. Both are written in one place, when an
attempt at the source fails for its bytes, and the trace notes it there
(`recordFailure_recorded`). Everything else a download does leaves the two
tables alone or counts a success, so that whoever has an integrity failure on
record, or a file in quarantine, was blamed for it (`downloadArtifact_recorded`).
-/

namespace Atlas

open Text Program

/-- A source was blamed, for something it delivered or is held to have delivered. -/
def Blamed (trace : List Event) (sourceId : Text) : Prop :=
  ∃ cells, .blamed sourceId cells ∈ trace

theorem Blamed.append {trace : List Event} {sourceId : Text} (h : Blamed trace sourceId)
    (more : List Event) : Blamed (trace ++ more) sourceId :=
  h.imp fun _ hmem => List.mem_append_left more hmem

/-- A source has an integrity failure on record, or is banned; such a source may not be
tried first, and is never unharmed. -/
def SourceHealth.Faulted (row : SourceHealth) : Prop :=
  0 < row.integrityFailures ∨ row.banned = true

/-- Whoever has an integrity failure on record, or a file in quarantine, was blamed. -/
structure Recorded (d : Disk) : Prop where
  health : ∀ row ∈ d.sourceHealth, row.Faulted → Blamed d.trace row.sourceId
  quarantine : ∀ q ∈ d.quarantine, ∀ sourceId, q.sourceId = some sourceId →
    Blamed d.trace sourceId

variable {D : Digests} {t : Target}

/-- A row of the health table after one more result. -/
theorem mem_recordSourceResult {sourceId : Text} {success integrity : Bool} {now : ℕ}
    {rows : List SourceHealth} {row : SourceHealth}
    (h : row ∈ Db.recordSourceResult sourceId success integrity now rows)
    (hfault : row.Faulted) :
    (∃ old ∈ rows, old.sourceId = row.sourceId ∧ old.Faulted) ∨
      (row.sourceId = sourceId ∧ integrity = true) := by
  unfold Db.recordSourceResult at h
  split at h
  · obtain ⟨old, hold, rfl⟩ := List.mem_map.mp h
    split at hfault
    · rename_i hid
      rw [if_pos hid]
      cases integrity with
      | true => exact Or.inr ⟨hid, rfl⟩
      | false =>
        refine Or.inl ⟨old, hold, rfl, ?_⟩
        obtain hfails | hbanned := hfault
        · exact Or.inl hfails
        · refine Or.inr ?_
          cases success with
          | true => cases hbanned
          | false => simpa [Db.updateHealth] using hbanned
    · rename_i hid
      rw [if_neg hid]
      exact Or.inl ⟨old, hold, rfl, hfault⟩
  · obtain hold | hnew := List.mem_append.mp h
    · exact Or.inl ⟨row, hold, rfl, hfault⟩
    · obtain rfl := List.mem_singleton.mp hnew
      refine Or.inr ⟨rfl, ?_⟩
      cases integrity with
      | true => rfl
      | false =>
        obtain hfails | hbanned := hfault
        · exact absurd hfails (Nat.lt_irrefl 0)
        · simp at hbanned

/-- A success, or an ordinary failure, puts no integrity failure on record. -/
theorem recordResult_recorded (sourceId : Text) (success : Bool) (now : ℕ) {d : Disk}
    (hd : Recorded d) : Recorded (recordResult sourceId success false now d) := by
  refine ⟨fun row hrow hfault => ?_, hd.quarantine⟩
  obtain ⟨old, hold, hid, hold'⟩ | ⟨-, hfalse⟩ := mem_recordSourceResult hrow hfault
  · exact hid ▸ hd.health old hold hold'
  · cases hfalse

/-- **A failure for bad bytes is noted where it is put on record.** -/
theorem recordFailure_recorded (e : Error) (now : ℕ) :
    Keeps Recorded (recordFailure t e now) := by
  intro d hd
  unfold recordFailure
  rw [bind_apply, modify_apply, andThen_ok]
  cases hblames : e.blames with
  | false =>
    rw [whenever_false Bool.false_ne_true]
    exact recordResult_recorded _ _ _ hd
  | true =>
    rw [whenever_true rfl]
    refine ⟨fun row hrow hfault => ?_, fun q hq s hs => ?_⟩
    · obtain ⟨old, hold, hid, hold'⟩ | ⟨hid, -⟩ := mem_recordSourceResult hrow hfault
      · exact hid ▸ (hd.health old hold hold').append _
      · rw [hid]
        exact ⟨_, List.mem_append_right _ List.mem_cons_self⟩
    · obtain hq | hq := List.mem_append.mp hq
      · exact (hd.quarantine q hq s hs).append _
      · obtain rfl := List.mem_singleton.mp hq
        cases hs
        exact ⟨_, List.mem_append_right _ List.mem_cons_self⟩

/-- No step of a download disturbs it. -/
theorem recorded_undisturbed : Undisturbed Recorded where
  temps _ _ hd := ⟨hd.health, hd.quarantine⟩
  downloads _ _ hd := ⟨hd.health, hd.quarantine⟩
  trace _ events hd :=
    ⟨fun row hrow hfault => (hd.health row hrow hfault).append events,
      fun q hq s hs => (hd.quarantine q hq s hs).append events⟩
  failure _ e now := recordFailure_recorded e now
  cache _ _ hd := ⟨hd.health, hd.quarantine⟩
  success _ sourceId now hd := recordResult_recorded sourceId true now hd

/-- **Whoever has an integrity failure on record was blamed**, after a call as
before it. -/
theorem downloadArtifact_recorded (maxAttempts : ℕ) (manifestId : Text) (artifact : Artifact)
    (run : DownloadRun) :
    Keeps Recorded (downloadArtifact D maxAttempts manifestId artifact run) :=
  recorded_undisturbed.downloadArtifact maxAttempts manifestId artifact run

end Atlas
