import Atlas.Manifest

/-!
# What a transfer may meet

A transfer is driven from outside: by the adapter that opens a stream and
the chunks the stream yields, by the user pressing Pause or Stop, by the
disk, and by the process being killed. All of it is data here. An `Attempt`
says what one attempt at one source meets, and the engine's functions are
functions of it; a statement about every adapter behaviour is a statement
about every `Attempt`.

An adapter reports where its stream starts. Each one either honours the
range it was asked for or starts over at 0 (`Opening.effectiveStart`).
-/

namespace Atlas

/-- What becomes of one `write_all` of a chunk, which may have landed in part when it fails. -/
inductive WriteOutcome where
  /-- Every byte landed. -/
  | written
  /-- The write failed after this many bytes landed. -/
  | failed (landed : ℕ) (message : Text)
  /-- The process died after this many bytes landed. -/
  | died (landed : ℕ)
  deriving DecidableEq, Repr

/-- One turn of a read loop: whether Pause or Stop was pressed by then, what
the stream yielded, and what the disk made of it. -/
structure StreamEvent where
  cancelled : Bool
  item : Except AdapterError Bytes
  write : WriteOutcome

/-- How a read loop stops of itself, when no event of the stream has stopped it. -/
inductive Ending where
  /-- The stream ended. -/
  | endOfStream
  /-- The process died while waiting for more. -/
  | died
  deriving DecidableEq, Repr

/-- An opened transfer, with all that it will yield and how it will end. -/
structure Opening where
  /-- Whether the server honoured the requested range. -/
  honoursRange : Bool
  /-- The free space on the disk; `none` when the query fails. -/
  availableSpace : Option ℕ
  events : List StreamEvent
  ending : Ending

/-- Where the stream actually starts: servers may ignore a range request and
restart from 0. -/
def Opening.effectiveStart (o : Opening) (requestedStart : ℕ) : ℕ :=
  if o.honoursRange then requestedStart else 0

theorem Opening.effectiveStart_eq (o : Opening) (n : ℕ) :
    o.effectiveStart n = n ∨ o.effectiveStart n = 0 := by
  unfold Opening.effectiveStart
  cases o.honoursRange
  · exact Or.inr rfl
  · exact Or.inl rfl

/-- What one single-stream attempt at a source meets, from the reading of the partial to the
outcome's record. -/
structure Attempt where
  /-- Whether Pause or Stop was pressed by the n-th read of the partial. -/
  cancelPolls : ℕ → Bool
  opened : Except AdapterError Opening
  /-- The clock when the outcome is recorded, in seconds. -/
  now : ℕ

/-- One turn of one connection of a segmented transfer. -/
inductive SegmentInput where
  /-- Opening this connection failed. -/
  | openFailed (e : AdapterError)
  /-- It was opened; whether the server honoured its range. -/
  | opened (honoursRange : Bool)
  /-- Its stream yielded something. -/
  | event (ev : StreamEvent)
  /-- Its stream ended. -/
  | endOfStream

/-- What a segmented transfer meets: the turns of its connections in the
order they happen. -/
structure SegmentedRun where
  /-- Which connection takes the turn, and what it meets. -/
  turns : List (ℕ × SegmentInput)
  /-- Whether Pause or Stop was pressed by the end of the streams. -/
  cancelledAfter : Bool
  /-- Whether it was pressed by the n-th read of the finished file. -/
  cancelPolls : ℕ → Bool
  /-- The clock when the outcome is recorded. -/
  now : ℕ

/-- Whether segments of a source's bytes may be fetched separately, which needs a web server
that honours ranges, as both kinds of mirrors have it. -/
def httpRangeClass : SourceClass → Bool
  | .huggingface => true
  | .httpsMirror => true
  | _ => false

end Atlas
