import Mathlib.Data.List.Infix
import Mathlib.Data.List.Perm.Basic
import Atlas.ListSum
import Atlas.Text
import Atlas.Transition

/-!
# The download queue

Downloads wait for one of a few slots in a list that the user can reorder. Whoever waits
looks at the list, tries to take a slot if it is at the front, and sleeps until it is
notified; whoever changes the list, or frees a slot, notifies everybody afterwards.

The list holds ids, and an id need not belong to one waiting download only: a stopped run
leaves the list when its future is dropped, which may be after the next run of the same
id came to wait. `queue_gate_of_sole` is what the queue guarantees while no download
leaves the list under an id that another waits under; `next_run_never_admitted` is what
happens otherwise.
-/

namespace Atlas

open ListSum Transition

/-! ## The queue -/

/-- Where a call of `acquire` is, and then the permit it got. -/
inductive AcquirePoint where
  /-- In the list; about to notify. -/
  | arrived
  /-- About to register for notifications. -/
  | looping
  /-- Registered when there had been this many; about to look at the front. -/
  | checking (seen : ℕ)
  /-- Was at the front; about to try for a slot. -/
  | trying (seen : ℕ)
  /-- Waits for a notification. -/
  | parked (seen : ℕ)
  /-- Has a slot; about to leave the list. -/
  | admitted
  /-- Left the list; about to notify. -/
  | left
  /-- Holds its permit. -/
  | holding
  /-- Freed its slot; about to notify. -/
  | releasing
  /-- Was dropped and left the list; about to notify. -/
  | dropping
  | gone
  deriving DecidableEq, Repr

/-- A call of `acquire`, from its arrival until it has released its permit or was dropped. -/
structure AcquireTask where
  id : Text
  /-- What was at the front when it last looked. -/
  front : Option Text
  point : AcquirePoint
  deriving DecidableEq, Repr

/-- A move in the list, by one place or to an end, as the user asks for it. -/
inductive QueueMove where
  | up
  | down
  | top
  | bottom
  deriving DecidableEq, Repr

/-- An ordered admission gate in front of the download limit: those who wait are admitted in
the list's order. -/
structure DownloadQueue where
  slots : ℕ
  /-- The permits left in the semaphore. -/
  free : ℕ
  /-- The ids that wait, in admission order. -/
  waiting : List Text
  /-- How often everybody was notified. -/
  pulses : ℕ
  tasks : List AcquireTask
  /-- Reorders that have yet to notify. -/
  reorders : ℕ
  deriving DecidableEq, Repr

/-- What happens to a queue: calls arrive, take steps or are dropped, permits are released,
and the list is rearranged. -/
inductive QueueEvent where
  /-- A download comes to wait. -/
  | acquire (id : Text)
  /-- A call takes its next step, or notifies after its permit or itself was dropped. -/
  | advance (k : ℕ)
  /-- A call that waits is dropped. -/
  | drop (k : ℕ)
  /-- A permit is dropped. -/
  | release (k : ℕ)
  | reorder (id : Text) (move : QueueMove)
  /-- A reorder notifies. -/
  | pulse
  deriving DecidableEq, Repr

/-- Two neighbours change places, and the list stays as it is where there is no second one. -/
def swapAt (q : List Text) (i : ℕ) : List Text :=
  q.take i ++ match q.drop i with
    | a :: b :: rest => b :: a :: rest
    | rest => rest

/-- The list after a move, if the move changes it; at an end, or without the id, it stays. -/
def moveIn (q : List Text) (id : Text) (move : QueueMove) : Option (List Text) :=
  let i := q.idxOf id
  if i < q.length then
    match move with
    | .up => if 0 < i then some (swapAt q (i - 1)) else none
    | .down => if i + 1 < q.length then some (swapAt q i) else none
    | .top => if 0 < i then some (id :: q.eraseIdx i) else none
    | .bottom => if i + 1 < q.length then some (q.eraseIdx i ++ [id]) else none
  else none

namespace DownloadQueue

/-- An empty queue in front of this many slots, and at least one. -/
def new (slots : ℕ) : DownloadQueue := ⟨max slots 1, max slots 1, [], 0, [], 0⟩

/-- A call goes on to its next point; nothing else in the queue changes. -/
def goto (k : ℕ) (task : AcquireTask) (point : AcquirePoint) (q : DownloadQueue) :
    DownloadQueue :=
  { q with tasks := q.tasks.set k { task with point := point } }

/-- Everybody is notified, and each waiting call will look at the front of the list again. -/
def notify (q : DownloadQueue) : DownloadQueue := { q with pulses := q.pulses + 1 }

/-- An id leaves the list, every occurrence of it. -/
def retain (id : Text) (q : DownloadQueue) : DownloadQueue :=
  { q with waiting := q.waiting.filter (· ≠ id) }

/-- The next step of a call, which depends on where it is and on what it finds there. -/
def advance (k : ℕ) (task : AcquireTask) (q : DownloadQueue) : DownloadQueue :=
  match task.point with
  | .arrived => q.notify.goto k task .looping
  | .looping => q.goto k task (.checking q.pulses)
  | .checking seen =>
    let task := { task with front := q.waiting.head? }
    if q.waiting.head? = some task.id then q.goto k task (.trying seen)
    else q.goto k task (.parked seen)
  | .trying seen =>
    if 0 < q.free then { q with free := q.free - 1 }.goto k task .admitted
    else q.goto k task (.parked seen)
  -- a notification since it registered wakes it
  | .parked seen => if seen < q.pulses then q.goto k task .looping else q
  | .admitted => (q.retain task.id).goto k task .left
  | .left => q.notify.goto k task .holding
  | .releasing => q.notify.goto k task .gone
  | .dropping => q.notify.goto k task .gone
  | .holding => q
  | .gone => q

/-- One step of the queue: a task arrives, goes on or is dropped, or the user changes the order. -/
def step (q : DownloadQueue) : QueueEvent → DownloadQueue
  | .acquire id =>
    { q with
      waiting := if id ∈ q.waiting then q.waiting else q.waiting ++ [id]
      tasks := q.tasks ++ [⟨id, none, .arrived⟩] }
  | .advance k =>
    match q.tasks[k]? with
    | some task => q.advance k task
    | none => q
  | .drop k =>
    match q.tasks[k]? with
    | some ⟨id, front, .parked _⟩ => (q.retain id).goto k ⟨id, front, .dropping⟩ .dropping
    | _ => q
  | .release k =>
    match q.tasks[k]? with
    | some ⟨id, front, .holding⟩ =>
      { q with free := q.free + 1 }.goto k ⟨id, front, .releasing⟩ .releasing
    | _ => q
  | .reorder id move =>
    match moveIn q.waiting id move with
    | some waiting => { q with waiting := waiting, reorders := q.reorders + 1 }
    | none => q
  | .pulse => if 0 < q.reorders then { q.notify with reorders := q.reorders - 1 } else q

end DownloadQueue

/-! ## What the queue guarantees -/

namespace AcquirePoint

/-- The call waits for a slot: it has not left the list. -/
def pending : AcquirePoint → Bool
  | .arrived | .looping | .checking _ | .trying _ | .parked _ | .admitted => true
  | _ => false

/-- The call has a slot, and will give it back. -/
def holds : AcquirePoint → Bool
  | .admitted | .left | .holding => true
  | _ => false

/-- The call got a slot at some time, even if it has given it back since. -/
def wasAdmitted : AcquirePoint → Bool
  | .admitted | .left | .holding | .releasing => true
  | _ => false

/-- How many notifications there had been when the call registered, if it waits for another. -/
def seen : AcquirePoint → Option ℕ
  | .checking seen | .trying seen | .parked seen => some seen
  | _ => none

/-- The call has yet to notify everybody, because it changed the list or the permits. -/
def owes : AcquirePoint → Bool
  | .arrived | .left | .releasing | .dropping => true
  | _ => false

end AcquirePoint

namespace DownloadQueue

/-- The permits a call holds, which is one or none. -/
def share (t : AcquireTask) : ℕ := if t.point.holds then 1 else 0

/-- The permits that are held by all calls together; with the free ones they make up the slots. -/
def held (q : DownloadQueue) : ℕ := (q.tasks.map share).sum

/-- Somebody has yet to notify everybody: a call, or a move in the list that was made and
not announced. -/
def Owed (q : DownloadQueue) : Prop := 0 < q.reorders ∨ ∃ t ∈ q.tasks, t.point.owes = true

/-- The call is awake, or will be woken: it is on its way to its next look at the list, or
it waits and was notified, or is about to be. -/
def Attended (q : DownloadQueue) (t : AcquireTask) : Prop :=
  match t.point with
  | .parked seen => seen < q.pulses ∨ q.Owed
  | _ => True

/-- **The gate.** No more permits than slots; the list is the ids of the calls that wait,
each once; a call only gets a slot after it found its id at the front; and while a slot is
free, the call at the front is awake or will be woken. -/
structure Gate (q : DownloadQueue) : Prop where
  permits : q.held ≤ q.slots
  nodup : q.waiting.Nodup
  mem_waiting : ∀ id, id ∈ q.waiting ↔ ∃ t ∈ q.tasks, t.point.pending = true ∧ t.id = id
  front : ∀ t ∈ q.tasks, t.point.wasAdmitted = true → t.front = some t.id
  awake : 0 < q.free → ∀ id, q.waiting.head? = some id →
    ∀ t ∈ q.tasks, t.point.pending = true → t.id = id → q.Attended t

/-- The call leaves the list in this step, because it got a slot or is dropped. -/
def Leaves (e : QueueEvent) (k : ℕ) (t : AcquireTask) : Prop :=
  (e = .advance k ∧ t.point = .admitted) ∨ (e = .drop k ∧ ∃ seen, t.point = .parked seen)

/-- The condition on a step: a call that leaves the list is the only one that waits under
its id. -/
def Sole (q : DownloadQueue) (e : QueueEvent) : Prop :=
  ∀ k t, Leaves e k t → q.tasks[k]? = some t →
    ∀ (j : ℕ) (u : AcquireTask), q.tasks[j]? = some u → u.point.pending = true → u.id = t.id →
      j = k

end DownloadQueue

/-! ## The list -/

theorem perm_swapAt (q : List Text) (i : ℕ) : (swapAt q i).Perm q := by
  unfold swapAt
  conv_rhs => rw [← List.take_append_drop i q]
  refine List.Perm.append_left _ ?_
  split
  · rename_i a b rest heq
    rw [heq]
    exact List.Perm.swap a b rest
  · exact List.Perm.refl _

/-- A move keeps what is in the list. -/
theorem perm_moveIn {q q' : List Text} {id : Text} {move : QueueMove}
    (h : moveIn q id move = some q') : q'.Perm q := by
  unfold moveIn at h
  dsimp only at h
  split at h
  · rename_i hlt
    have herase : (id :: q.eraseIdx (q.idxOf id)).Perm q := by
      have hperm := List.getElem_cons_eraseIdx_perm hlt
      rwa [List.getElem_idxOf hlt] at hperm
    cases move with
    | up =>
      dsimp only at h
      split at h
      · rw [← Option.some.inj h]
        exact perm_swapAt _ _
      · cases h
    | down =>
      dsimp only at h
      split at h
      · rw [← Option.some.inj h]
        exact perm_swapAt _ _
      · cases h
    | top =>
      dsimp only at h
      split at h
      · rw [← Option.some.inj h]
        exact herase
      · cases h
    | bottom =>
      dsimp only at h
      split at h
      · rw [← Option.some.inj h]
        exact (List.perm_append_singleton _ _).trans herase
      · cases h
  · cases h

namespace DownloadQueue

/-! ## The invariant -/

/-- **No wake-up is lost.** Permits are accounted for; the list is the ids of the calls
that wait; and a call that sleeps, and that nobody is about to wake, has nothing to wake
up for: there is no slot, or it is not at the front. -/
structure Sound (q : DownloadQueue) : Prop where
  permits : q.free + q.held = q.slots
  nodup : q.waiting.Nodup
  mem_waiting : ∀ id, id ∈ q.waiting ↔
    ∃ (j : ℕ) (u : AcquireTask), q.tasks[j]? = some u ∧ u.point.pending = true ∧ u.id = id
  front : ∀ t ∈ q.tasks, (t.point.wasAdmitted = true ∨ ∃ seen, t.point = .trying seen) →
    t.front = some t.id
  seen : ∀ t ∈ q.tasks, ∀ seen, t.point.seen = some seen → seen ≤ q.pulses
  asleep : ∀ t ∈ q.tasks, ∀ seen, t.point = .parked seen → q.pulses ≤ seen → ¬ q.Owed →
    q.free = 0 ∨ q.waiting.head? ≠ some t.id

variable {q : DownloadQueue} {k : ℕ} {t : AcquireTask}

theorem sound_new (slots : ℕ) : (new slots).Sound where
  permits := rfl
  nodup := List.nodup_nil
  mem_waiting _ := ⟨nofun, fun ⟨_, _, hu, _⟩ => nomatch hu⟩
  front := nofun
  seen := nofun
  asleep := nofun

theorem Sound.gate (h : q.Sound) : q.Gate where
  permits := by
    have hpermits := h.permits
    omega
  nodup := h.nodup
  mem_waiting id := by
    rw [h.mem_waiting]
    constructor
    · rintro ⟨j, u, hu, hpending, hid⟩
      exact ⟨u, List.mem_of_getElem? hu, hpending, hid⟩
    · rintro ⟨u, hu, hpending, hid⟩
      obtain ⟨j, hj⟩ := List.getElem?_of_mem hu
      exact ⟨j, u, hj, hpending, hid⟩
  front t ht hadmitted := h.front t ht (.inl hadmitted)
  awake hfree id hhead t ht hpending hid := by
    unfold Attended
    split
    · rename_i seen hparked
      by_contra hnone
      obtain ⟨hseen, howed⟩ := not_or.mp hnone
      obtain hzero | hne := h.asleep t ht seen hparked (Nat.le_of_not_lt hseen) howed
      · omega
      · rw [hid] at hne
        exact hne hhead
    · trivial

/-- A step of one call. What it changes for the others is announced: everybody was
notified, or the call is about to do so, or there is no more to wake up for than before. -/
theorem Sound.replace (h : q.Sound) (ht : q.tasks[k]? = some t) (t' : AcquireTask)
    (hid : t'.id = t.id) {free pulses : ℕ} {waiting : List Text} (hfree : free + share t' = q.free + share t)
    (hlist : (waiting = q.waiting ∧ t'.point.pending = t.point.pending) ∨
      (waiting = q.waiting.filter (· ≠ t.id) ∧ t'.point.pending = false ∧
        ∀ (j : ℕ) (u : AcquireTask), q.tasks[j]? = some u → u.point.pending = true →
          u.id = t.id → j = k))
    (hfront : (t'.point.wasAdmitted = true ∨ ∃ seen, t'.point = .trying seen) →
      t'.front = some t'.id)
    (hpulses : q.pulses ≤ pulses) (hseen : ∀ seen, t'.point.seen = some seen → seen ≤ pulses)
    (hquiet : q.pulses < pulses ∨ t'.point.owes = true ∨
      (free ≤ q.free ∧ waiting = q.waiting ∧ t.point.owes = false))
    (hpark : ∀ seen, t'.point = .parked seen → pulses ≤ seen →
      free = 0 ∨ waiting.head? ≠ some t'.id) :
    Sound { q with
      free := free, waiting := waiting, pulses := pulses, tasks := q.tasks.set k t' } := by
  have hlt : k < q.tasks.length := (List.getElem?_eq_some_iff.mp ht).1
  have hself : (q.tasks.set k t')[k]? = some t' := List.getElem?_set_self hlt
  have hother {j : ℕ} (hj : j ≠ k) : (q.tasks.set k t')[j]? = q.tasks[j]? :=
    List.getElem?_set_ne hj.symm
  refine ⟨?_, ?_, fun id => ?_, fun u hu hadmitted => ?_, fun u hu seen hsome => ?_,
    fun u hu seen hparked hle howed => ?_⟩
  · have hsum := sum_map_set share ht t'
    have hpermits := h.permits
    show free + ((q.tasks.set k t').map share).sum = q.slots
    unfold held at hpermits
    omega
  · obtain ⟨rfl, -⟩ | ⟨rfl, -, -⟩ := hlist
    · exact h.nodup
    · exact h.nodup.filter _
  · obtain ⟨rfl, hpending⟩ | ⟨rfl, hgone, hsole⟩ := hlist
    · show id ∈ q.waiting ↔ _
      rw [h.mem_waiting]
      constructor
      · rintro ⟨j, u, hu, hwaits, rfl⟩
        by_cases hj : j = k
        · rw [hj, ht] at hu
          obtain rfl := Option.some.inj hu
          exact ⟨k, t', hself, hpending.trans hwaits, hid⟩
        · exact ⟨j, u, (hother hj).trans hu, hwaits, rfl⟩
      · rintro ⟨j, u, hu, hwaits, rfl⟩
        replace hu : (q.tasks.set k t')[j]? = some u := hu
        by_cases hj : j = k
        · rw [hj, hself] at hu
          obtain rfl := Option.some.inj hu
          exact ⟨k, t, ht, hpending.symm.trans hwaits, hid.symm⟩
        · exact ⟨j, u, (hother hj).symm.trans hu, hwaits, rfl⟩
    · show id ∈ q.waiting.filter _ ↔ _
      rw [List.mem_filter, h.mem_waiting, decide_eq_true_iff]
      constructor
      · rintro ⟨⟨j, u, hu, hwaits, rfl⟩, hne⟩
        refine ⟨j, u, ?_, hwaits, rfl⟩
        refine (hother fun hj => hne ?_).trans hu
        rw [hj, ht] at hu
        rw [Option.some.inj hu]
      · rintro ⟨j, u, hu, hwaits, rfl⟩
        replace hu : (q.tasks.set k t')[j]? = some u := hu
        by_cases hj : j = k
        · rw [hj, hself] at hu
          rw [← Option.some.inj hu, hgone] at hwaits
          cases hwaits
        · rw [hother hj] at hu
          exact ⟨⟨j, u, hu, hwaits, rfl⟩, fun hne => hj (hsole j u hu hwaits hne)⟩
  · obtain hu | rfl := List.mem_or_eq_of_mem_set hu
    · exact h.front u hu hadmitted
    · exact hfront hadmitted
  · obtain hu | rfl := List.mem_or_eq_of_mem_set hu
    · exact (h.seen u hu seen hsome).trans hpulses
    · exact hseen seen hsome
  · replace hle : pulses ≤ seen := hle
    obtain hold | rfl := List.mem_or_eq_of_mem_set hu
    · have hbound := h.seen u hold seen (by rw [hparked]; rfl)
      obtain hlater | howes | ⟨hless, rfl, hnot⟩ := hquiet
      · omega
      · exact absurd (.inr ⟨t', List.mem_of_getElem? hself, howes⟩) howed
      · -- nobody was about to notify before
        have hbefore : ¬ q.Owed := by
          rintro (hreorders | ⟨v, hv, howes⟩)
          · exact howed (.inl hreorders)
          · obtain ⟨j, hj⟩ := List.getElem?_of_mem hv
            by_cases hjk : j = k
            · rw [hjk, ht] at hj
              rw [← Option.some.inj hj, hnot] at howes
              cases howes
            · exact howed (.inr ⟨v, List.mem_of_getElem? ((hother hjk).trans hj), howes⟩)
        obtain hzero | hne := h.asleep u hold seen hparked (hpulses.trans hle) hbefore
        · exact .inl (Nat.le_zero.mp (hzero ▸ hless))
        · exact .inr hne
    · exact hpark seen hparked hle

/-- A call that goes on without a change for anybody else. -/
theorem Sound.goOn (h : q.Sound) (ht : q.tasks[k]? = some t) {front : Option Text}
    {point : AcquirePoint} (hpending : point.pending = t.point.pending)
    (hholds : point.holds = t.point.holds) (howes : t.point.owes = false)
    (hfront : (point.wasAdmitted = true ∨ ∃ seen, point = .trying seen) → front = some t.id)
    (hseen : ∀ seen, point.seen = some seen → seen ≤ q.pulses)
    (hpark : ∀ seen, point = .parked seen → q.pulses ≤ seen →
      q.free = 0 ∨ q.waiting.head? ≠ some t.id) :
    Sound { q with tasks := q.tasks.set k ⟨t.id, front, point⟩ } := by
  refine h.replace ht ⟨t.id, front, point⟩ rfl ?_ (.inl ⟨rfl, hpending⟩) hfront (le_refl _) hseen
    (.inr (.inr ⟨le_refl _, rfl, howes⟩)) hpark
  unfold share
  rw [hholds]

/-- A call that notifies everybody. -/
theorem Sound.notify (h : q.Sound) (ht : q.tasks[k]? = some t) {point : AcquirePoint}
    (hpending : point.pending = t.point.pending) (hholds : point.holds = t.point.holds)
    (hfront : (point.wasAdmitted = true ∨ ∃ seen, point = .trying seen) → t.front = some t.id)
    (hseen : point.seen = none) : (q.notify.goto k t point).Sound := by
  refine h.replace ht { t with point := point } rfl ?_ (.inl ⟨rfl, hpending⟩) hfront
    (Nat.le_succ _) (fun seen hsome => ?_) (.inl (Nat.lt_succ_self _)) (fun seen hparked => ?_)
  · unfold share
    rw [hholds]
    rfl
  · rw [hseen] at hsome
    cases hsome
  · replace hparked : point = .parked seen := hparked
    rw [hparked] at hseen
    cases hseen

/-- **The next step of a call loses no wake-up.** -/
theorem Sound.advance (h : q.Sound) (ht : q.tasks[k]? = some t)
    (hsole : t.point = .admitted → ∀ (j : ℕ) (u : AcquireTask), q.tasks[j]? = some u →
      u.point.pending = true → u.id = t.id → j = k) : (q.advance k t).Sound := by
  have hmem := List.mem_of_getElem? ht
  obtain ⟨id, front, point⟩ := t
  have hadmitted := h.front _ hmem
  have hregistered := h.seen _ hmem
  cases point with
  | arrived => exact h.notify ht rfl rfl nofun rfl
  | looping =>
    refine h.goOn ht rfl rfl rfl nofun (fun seen hseen => ?_) nofun
    rw [← Option.some.inj hseen]
  -- at the front the task goes on to try for a permit, elsewhere it parks until the next
  -- notification
  | checking seen =>
    unfold DownloadQueue.advance
    dsimp only
    split
    · rename_i hfront
      exact h.goOn ht rfl rfl rfl (fun _ => hfront) hregistered nofun
    · rename_i hnot
      exact h.goOn ht rfl rfl rfl nofun hregistered fun _ _ _ => .inr hnot
  | trying seen =>
    have hfront := hadmitted (.inr ⟨seen, rfl⟩)
    unfold DownloadQueue.advance
    dsimp only
    split
    · rename_i hfree
      refine h.replace ht ⟨id, front, .admitted⟩ rfl ?_ (.inl ⟨rfl, rfl⟩) (fun _ => hfront)
        (le_refl _) nofun (.inr (.inr ⟨Nat.sub_le .., rfl, rfl⟩)) nofun
      show q.free - 1 + 1 = q.free + 0
      omega
    · rename_i hfree
      refine h.goOn ht rfl rfl rfl nofun hregistered fun _ _ _ => .inl ?_
      omega
  | parked seen =>
    unfold DownloadQueue.advance
    dsimp only
    split
    · exact h.goOn ht rfl rfl rfl nofun nofun nofun
    · exact h
  -- admission takes the id out of the queue, and `hsole` says that no other task waits under it
  | admitted =>
    exact h.replace ht ⟨id, front, .left⟩ rfl rfl (.inr ⟨rfl, rfl, hsole rfl⟩)
      (fun _ => hadmitted (.inl rfl)) (le_refl _) nofun (.inr (.inl rfl)) nofun
  | left => exact h.notify ht rfl rfl (fun _ => hadmitted (.inl rfl)) rfl
  | holding => exact h
  | releasing => exact h.notify ht rfl rfl nofun rfl
  | dropping => exact h.notify ht rfl rfl nofun rfl
  | gone => exact h

/-- A call that comes to wait is about to notify. -/
theorem Sound.acquire (h : q.Sound) (id : Text) : (q.step (.acquire id)).Sound := by
  -- the one new task has arrived and holds nothing, so it owes nothing to `front`, `seen` or the
  -- permits
  have hnew : ∀ {j : ℕ} {u : AcquireTask}, (q.tasks ++ [⟨id, none, .arrived⟩])[j]? = some u →
      q.tasks[j]? = some u ∨ u = ⟨id, none, .arrived⟩ := by
    intro j u hu
    by_cases hj : j < q.tasks.length
    · rw [List.getElem?_append_left hj] at hu
      exact .inl hu
    · rw [List.getElem?_append_right (Nat.le_of_not_lt hj)] at hu
      exact .inr (List.mem_singleton.mp (List.mem_of_getElem? hu))
  have hlast : (q.tasks ++ [⟨id, none, .arrived⟩])[q.tasks.length]? =
      some ⟨id, none, .arrived⟩ := List.getElem?_concat_length
  refine ⟨?_, ?_, fun id' => ?_, fun u hu hadmitted => ?_, fun u hu seen hsome => ?_,
    fun u hu seen hparked hle howed => ?_⟩
  · show q.free + ((q.tasks ++ [_]).map share).sum = q.slots
    rw [List.map_append, List.sum_append]
    exact h.permits
  · show (if id ∈ q.waiting then q.waiting else q.waiting ++ [id]).Nodup
    split
    · exact h.nodup
    · rename_i hnot
      exact (List.perm_append_singleton id q.waiting).nodup_iff.mpr
        (List.nodup_cons.mpr ⟨hnot, h.nodup⟩)
  · show id' ∈ (if id ∈ q.waiting then q.waiting else q.waiting ++ [id]) ↔ _
    have hmem : id' ∈ (if id ∈ q.waiting then q.waiting else q.waiting ++ [id]) ↔
        id' ∈ q.waiting ∨ id' = id := by
      split
      · rename_i hin
        exact ⟨.inl, fun hor => hor.elim (fun hold => hold) fun heq => heq ▸ hin⟩
      · rw [List.mem_append, List.mem_singleton]
    rw [hmem, h.mem_waiting]
    constructor
    · rintro (⟨j, u, hu, hwaits, rfl⟩ | rfl)
      · refine ⟨j, u, ?_, hwaits, rfl⟩
        exact (List.getElem?_append_left (List.getElem?_eq_some_iff.mp hu).1).trans hu
      · exact ⟨_, _, hlast, rfl, rfl⟩
    · rintro ⟨j, u, hu, hwaits, rfl⟩
      obtain hu | rfl := hnew hu
      · exact .inl ⟨j, u, hu, hwaits, rfl⟩
      · exact .inr rfl
  · obtain hu | hu := List.mem_append.mp hu
    · exact h.front u hu hadmitted
    · rw [List.mem_singleton.mp hu] at hadmitted
      exact absurd hadmitted nofun
  · obtain hu | hu := List.mem_append.mp hu
    · exact h.seen u hu seen hsome
    · rw [List.mem_singleton.mp hu] at hsome
      cases hsome
  -- the new arrival owes a notification, which excuses the parked tasks from seeing the front
  · exact absurd (.inr ⟨_, List.mem_of_getElem? hlast, rfl⟩) howed

/-- **A step that meets the condition loses no wake-up.** -/
theorem Sound.step (h : q.Sound) {e : QueueEvent} (hsole : q.Sole e) : (q.step e).Sound := by
  unfold DownloadQueue.step
  cases e with
  | acquire id => exact h.acquire id
  | advance k =>
    dsimp only
    split
    · rename_i t ht
      exact h.advance ht fun hpoint => hsole k t (.inl ⟨rfl, hpoint⟩) ht
    · exact h
  | drop k =>
    dsimp only
    split
    · rename_i id front seen ht
      exact h.replace ht ⟨id, front, .dropping⟩ rfl rfl
        (.inr ⟨rfl, rfl, hsole k _ (.inr ⟨rfl, seen, rfl⟩) ht⟩) nofun (le_refl _) nofun
        (.inr (.inl rfl)) nofun
    · exact h
  | release k =>
    dsimp only
    split
    · rename_i id front ht
      have hfront := h.front _ (List.mem_of_getElem? ht) (.inl rfl)
      exact h.replace ht ⟨id, front, .releasing⟩ rfl rfl (.inl ⟨rfl, rfl⟩) (fun _ => hfront)
        (le_refl _) nofun (.inr (.inl rfl)) nofun
    · exact h
  | reorder id move =>
    dsimp only
    split
    · rename_i waiting hmove
      have hperm := perm_moveIn hmove
      refine ⟨h.permits, hperm.nodup_iff.mpr h.nodup, fun id' => ?_, h.front, h.seen,
        fun _ _ _ _ _ howed => absurd (.inl (Nat.succ_pos _)) howed⟩
      exact hperm.mem_iff.trans (h.mem_waiting id')
    · exact h
  | pulse =>
    dsimp only
    split
    · refine ⟨h.permits, h.nodup, h.mem_waiting, h.front,
        fun t ht seen hseen => (h.seen t ht seen hseen).trans (Nat.le_succ _),
        fun t ht seen hparked hle _ => ?_⟩
      have hbound := h.seen t ht seen (by rw [hparked]; rfl)
      exact absurd (hbound.trans_lt hle) (lt_irrefl _)
    · exact h

end DownloadQueue

open DownloadQueue

/-- **The queue is a gate.** As long as no call leaves the list under an id that another
waits under: in every state the permits held are no more than the slots, the list is the
ids of the calls that wait, once each, whoever got a slot found its id at the front, and
while a slot is free the call at the front is awake or will be woken. -/
theorem queue_gate_of_sole {slots : ℕ} {events : List QueueEvent}
    (h : Along DownloadQueue.step DownloadQueue.Sole events (new slots)) :
    (events.foldl DownloadQueue.step (new slots)).Gate :=
  (Along.invariant (fun _ _ hq he => hq.step he) (sound_new slots) h).gate

/-- Calls under different ids never leave under each other's. -/
theorem sole_of_nodup {q : DownloadQueue} (h : (q.tasks.map AcquireTask.id).Nodup)
    (e : QueueEvent) : q.Sole e := by
  intro k t _ ht j u hu _ hid
  refine (List.getElem?_inj ?_ h).mp ?_
  · rw [List.length_map]
    exact (List.getElem?_eq_some_iff.mp hu).1
  · rw [List.getElem?_map, List.getElem?_map, hu, ht]
    exact congrArg some hid

/-- A download takes the only slot, and one that waits for it is dropped. -/
def queuedAndDropped : List QueueEvent :=
  [.acquire ['a'], .advance 0, .advance 0, .advance 0, .advance 0, .advance 0, .advance 0,
    .acquire ['b'], .advance 1, .advance 1, .advance 1, .advance 1, .acquire ['c'],
    .reorder ['c'] .top, .drop 1, .release 0]

/-- The queue is a gate for downloads of different manifests. -/
theorem queue_gate_of_different :
    (queuedAndDropped.foldl DownloadQueue.step (new 1)).Gate := by
  have hdifferent : Along DownloadQueue.step (fun q _ => (q.tasks.map AcquireTask.id).Nodup)
      queuedAndDropped (new 1) := by
    decide +kernel
  exact queue_gate_of_sole (hdifferent.mono fun _ e h => sole_of_nodup h e)

/-- One slot, a download that holds it, and the next run of a stopped one. The stopped
run leaves the list last. -/
def stoppedAndResumed : List QueueEvent :=
  [.acquire ['a'], .advance 0, .advance 0, .advance 0, .advance 0, .advance 0, .advance 0,
    .acquire ['b'], .advance 1, .advance 1, .advance 1, .advance 1,
    .acquire ['b'], .advance 2, .advance 2, .advance 2, .advance 2, .drop 1, .advance 1,
    .advance 2, .advance 2, .advance 2, .release 0, .advance 0,
    .advance 2, .advance 2, .advance 2]

/-- **The next run is never admitted.** The list is empty and the slot is free, and the
call that waits sleeps, was not notified, and nobody is about to notify it. -/
theorem next_run_never_admitted :
    let q := stoppedAndResumed.foldl DownloadQueue.step (new 1)
    q.free = 1 ∧ q.waiting = [] ∧ q.reorders = 0 ∧
      q.tasks[2]? = some ⟨['b'], none, .parked q.pulses⟩ ∧
      ∀ t ∈ q.tasks, t.point.owes = false := by
  refine ⟨by decide +kernel, by decide +kernel, by decide +kernel, by decide +kernel,
    by decide +kernel⟩

end Atlas
