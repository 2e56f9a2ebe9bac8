import Atlas.Lines
import Atlas.Stream
import Atlas.TextCut

/-!
# Fetching a range of a file over HTTP

The HTTP adapters ask for a range of a file with a `Range` header and tell from the status
whether they got it: 206 is the range, any other success is taken for the whole file. What is
made of an answer is `HttpClient.openUrl`.

What a server may answer is a matter of the protocol: it honours the range or ignores it, may
refuse the request, and its connection may break at any time. `MirrorAnswer` says so of a server
that has a file, by the header it reads.
-/

namespace Atlas

open Text

/-! ## The request -/

/-- A half-open range of a file, to its end if it has none of its own. -/
structure ByteRange where
  start : ℕ
  stop : Option ℕ
  deriving DecidableEq, Repr

namespace ByteRange

/-- Where a requested range starts; without one, the whole file is asked for. -/
def requestedStart (range : Option ByteRange) : ℕ := (range.map ByteRange.start).getD 0

/-- Where a requested range ends, if it does not go to the end of the file. -/
def requestedEnd (range : Option ByteRange) : Option ℕ := range.bind ByteRange.stop

/-- The range from `start` on, in the words of a header, without an end: the body is to go
on to the end of the file. -/
def onward (start : ℕ) : Text := "bytes=".toList ++ decimal start ++ ['-']

/-- The range up to and including `last`, in the words of a header. -/
def between (start last : ℕ) : Text := "bytes=".toList ++ decimal start ++ ('-' :: decimal last)

/-- The `Range` header of a request. Without an end it resumes to the end of the file. -/
def header (range : Option ByteRange) : Option Text :=
  let requestedStart := requestedStart range
  if 0 < requestedStart ∨ (requestedEnd range).isSome then
    some (match requestedEnd range with
      | some stop =>
        if requestedStart < stop then between requestedStart (stop - 1)
        else onward requestedStart
      | none => onward requestedStart)
  else none

/-- An attempt that resumes asks for the rest of the file. -/
theorem header_onward {start : ℕ} (h : 0 < start) :
    header (some ⟨start, none⟩) = some (onward start) :=
  if_pos (Or.inl h)

/-- What a header asks for: from a position on, or up to and including another. -/
inductive Asks : Text → ℕ → Option ℕ → Prop
  | onward (first : ℕ) : Asks (onward first) first none
  | between {first last : ℕ} (h : first ≤ last) : Asks (between first last) first (some last)

/-- The first position of a header is what stands before its hyphen. -/
theorem Asks.splitOnce {text : Text} {first : ℕ} {last : Option ℕ} (h : Asks text first last) :
    Text.splitOnce ['-'] (text.drop 6) =
      some (decimal first, (last.map decimal).getD []) := by
  have hhyphen : '-' ∉ decimal first := not_mem_decimal rfl
  cases h with
  | onward => exact splitOnce_append hhyphen []
  | between hle => exact splitOnce_append hhyphen _

/-- **A header asks for one range.** -/
theorem Asks.unique {text : Text} {first first' : ℕ} {last last' : Option ℕ}
    (h : Asks text first last) (h' : Asks text first' last') : first = first' ∧ last = last' := by
  have hsplit := h.splitOnce
  rw [h'.splitOnce] at hsplit
  obtain ⟨hfirst, hlast⟩ := Prod.mk.inj (Option.some.inj hsplit)
  have hinj : ∀ {n m : ℕ}, decimal n = decimal m → n = m := by
    intro n m hnm
    have hn : Nat.ofDigitChars 10 (decimal n) 0 = n := Nat.ofDigitChars_ten_toDigits
    rw [hnm] at hn
    exact hn.symm.trans Nat.ofDigitChars_ten_toDigits
  refine ⟨(hinj hfirst).symm, ?_⟩
  cases last with
  | none =>
    cases last' with
    | none => rfl
    | some n => exact absurd hlast (decimal_ne_nil n)
  | some n =>
    cases last' with
    | none => exact absurd hlast.symm (decimal_ne_nil n)
    | some m => exact congrArg some (hinj hlast).symm

/-- **A request asks for its range**, the end of which the header counts in. -/
theorem asks_header {range : ByteRange} {text : Text} (h : header (some range) = some text) :
    Asks text range.start
      ((range.stop.filter fun stop => range.start < stop).map fun stop => stop - 1) := by
  unfold header at h
  dsimp only at h
  split at h
  · cases hstop : range.stop with
    | none =>
      rw [show requestedEnd (some range) = none from hstop] at h
      cases h
      exact .onward _
    | some stop =>
      rw [show requestedEnd (some range) = some stop from hstop] at h
      dsimp only at h
      by_cases hlt : range.start < stop
      · rw [if_pos (show requestedStart (some range) < stop from hlt)] at h
        cases h
        rw [Option.filter_some, if_pos (decide_eq_true hlt)]
        exact .between (Nat.le_sub_one_of_lt hlt)
      · rw [if_neg (show ¬ requestedStart (some range) < stop from hlt)] at h
        cases h
        rw [Option.filter_some, if_neg (by rwa [decide_eq_true_iff])]
        exact .onward _
  · cases h

end ByteRange

/-! ## The answer -/

/-- Why a request was not answered, before any status was received. -/
inductive SendError where
  | timeout
  | connect (message : Text)
  | other (message : Text)
  deriving DecidableEq, Repr

/-- How such a failure is reported: the three kinds keep their names, and the last takes
what the client said. -/
def SendError.kind : SendError → TransportErrorKind
  | .timeout => .timeout
  | .connect message => .connect message
  | .other message => .other message

theorem SendError.blameless (sourceId : Text) (e : SendError) :
    (Error.transport sourceId e.kind).blames = false := by
  cases e <;> rfl

/-- An answer to a request: its status, what the HTTP library calls that, and the pieces the
body comes in, an error among them if the connection breaks. -/
structure HttpResponse where
  status : ℕ
  canonicalReason : Option Text
  body : List (Except Text Bytes)

/-- Whether the status is one of those that tell of a success. -/
def HttpResponse.isSuccess (resp : HttpResponse) : Bool :=
  200 ≤ resp.status && resp.status < 300

/-- An opened transfer: the pieces of the stream, and where they actually start. -/
structure Opened where
  effectiveStart : ℕ
  stream : List (Except AdapterError Bytes)

/-- A piece of the stream, or why there are no more; an item that fails becomes a transport
error which names the source, and is retriable as such. -/
def streamItem (sourceId : Text) : Except Text Bytes → Except AdapterError Bytes
  | .ok chunk => .ok chunk
  | .error message => .error ⟨.transport sourceId (.other message), rfl⟩

namespace HttpClient

/-- What is made of the answer to a request for a range. A range that is ignored restarts the
stream at 0. -/
def openUrl (sourceId : Text) (range : Option ByteRange) :
    Except SendError HttpResponse → Except AdapterError Opened
  | .error e => .error ⟨.transport sourceId e.kind, e.blameless sourceId⟩
  | .ok resp =>
    if resp.status = 401 ∨ resp.status = 403 then .error ⟨.transport sourceId .unauthorized, rfl⟩
    else if resp.status = 404 then .error ⟨.transport sourceId .notFound, rfl⟩
    else if !resp.isSuccess then
      .error ⟨.transport sourceId
        (.status resp.status (resp.canonicalReason.getD "error".toList)), rfl⟩
    else
      let requestedStart := ByteRange.requestedStart range
      -- did the server honor the range?
      .ok ⟨if 0 < requestedStart ∧ resp.status = 206 then requestedStart else 0,
        resp.body.map (streamItem sourceId)⟩

end HttpClient

/-! ## A server that has the file -/

/-- What arrives of a body before its connection breaks, chunk by chunk; what comes after
the first item that failed is not seen. -/
def arrived {ε : Type} : List (Except ε Bytes) → Bytes
  | [] => []
  | .ok chunk :: items => chunk ++ arrived items
  | .error _ :: _ => []

theorem arrived_streamItem (sourceId : Text) (body : List (Except Text Bytes)) :
    arrived (body.map (streamItem sourceId)) = arrived body := by
  induction body with
  | nil => rfl
  | cons item body ih =>
    cases item with
    | ok chunk => exact congrArg (chunk ++ ·) ih
    | error message => rfl

/-- The bytes of a file from `first` on, or up to and including `last`. -/
def filePart (b : Bytes) (first : ℕ) (last : Option ℕ) : Bytes :=
  (match last with
    | some last => b.take (last + 1)
    | none => b).drop first

theorem filePart_begins (b : Bytes) (first : ℕ) (last : Option ℕ) :
    filePart b first last <+: b.drop first := by
  cases last with
  | none => exact List.prefix_rfl
  | some last =>
    show (b.take (last + 1)).drop first <+: b.drop first
    rw [List.drop_take]
    exact List.take_prefix _ _

/-- **What a server that has the file `b` may answer** to a request with a `Range` header, or
without one. It may ignore the header, and what arrives may be cut short. -/
inductive MirrorAnswer (b : Bytes) (header : Option Text) (resp : HttpResponse) : Prop
  /-- The whole file. -/
  | whole (status : resp.status = 200) (body : arrived resp.body <+: b)
  /-- What the header asks for. -/
  | part {text : Text} {first : ℕ} {last : Option ℕ} (asked : header = some text)
    (asks : ByteRange.Asks text first last) (satisfiable : first < b.length)
    (status : resp.status = 206) (body : arrived resp.body <+: filePart b first last)
  /-- Nothing, for a reason of its own. -/
  | refused (status : resp.isSuccess = false)

/-- A server that has a file, and how it answers: its answers depend on how many requests came
before and on the range. A request may also go unanswered. -/
structure Mirror (b : Bytes) where
  answer : ℕ → Option ByteRange → Except SendError HttpResponse
  honest : ∀ n range resp, answer n range = .ok resp → MirrorAnswer b (ByteRange.header range) resp

/-- **What is opened at an honest server carries the file**, from where it is said to start. -/
theorem HttpClient.openUrl_honest {sourceId : Text} {range : Option ByteRange} {b : Bytes}
    {resp : HttpResponse} (hanswer : MirrorAnswer b (ByteRange.header range) resp) {o : Opened}
    (h : HttpClient.openUrl sourceId range (.ok resp) = .ok o) :
    (o.effectiveStart = ByteRange.requestedStart range ∨ o.effectiveStart = 0) ∧
      arrived o.stream <+: b.drop o.effectiveStart := by
  unfold HttpClient.openUrl at h
  dsimp only at h
  split at h
  · cases h
  · split at h
    · cases h
    · split at h
      · cases h
      · rename_i hsuccess
        cases h
        rw [arrived_streamItem]
        dsimp only
        -- the code believes a 206 to a request that asked for a start, and takes anything else for
        -- the whole file
        by_cases hhonoured : 0 < ByteRange.requestedStart range ∧ resp.status = 206
        · rw [if_pos hhonoured]
          refine ⟨Or.inl rfl, ?_⟩
          cases hanswer with
          | whole status => exact absurd (status.symm.trans hhonoured.2) (by decide)
          | refused status =>
            rw [status] at hsuccess
            exact absurd rfl hsuccess
          | @part text first last asked asks _ _ body =>
            cases range with
            | none => exact absurd hhonoured.1 (Nat.lt_irrefl 0)
            | some range =>
              obtain ⟨rfl, -⟩ := asks.unique (ByteRange.asks_header asked)
              exact body.trans (filePart_begins b _ last)
        · rw [if_neg hhonoured]
          refine ⟨Or.inr rfl, ?_⟩
          rw [List.drop_zero]
          cases hanswer with
          | whole _ body => exact body
          | refused status =>
            rw [status] at hsuccess
            exact absurd rfl hsuccess
          | @part text first last asked asks _ status body =>
            -- a 206 that is not taken as such answers a request from the first byte on
            have hzero : ByteRange.requestedStart range = 0 := by
              by_contra hpos
              exact hhonoured ⟨Nat.pos_of_ne_zero hpos, status⟩
            cases range with
            | none => cases asked
            | some range =>
              obtain ⟨rfl, -⟩ := asks.unique (ByteRange.asks_header asked)
              have hbegins := body.trans (filePart_begins b _ last)
              rwa [show range.start = 0 from hzero, List.drop_zero] at hbegins

/-! ## What the engine sees of it -/

/-- A piece that comes while nobody interrupts and that lands on the disk. -/
def undisturbed (item : Except AdapterError Bytes) : StreamEvent := ⟨false, item, .written⟩

/-- An opened transfer as the read loop meets it when nobody interrupts and the disk works. -/
def Opened.opening (o : Opened) (requested : ℕ) (availableSpace : Option ℕ) : Opening where
  honoursRange := o.effectiveStart = requested
  availableSpace := availableSpace
  events := o.stream.map undisturbed
  ending := .endOfStream

/-- The stream starts where the adapter says. -/
theorem Opened.effectiveStart_opening {o : Opened} {requested : ℕ} {availableSpace : Option ℕ}
    (h : o.effectiveStart = requested ∨ o.effectiveStart = 0) :
    (o.opening requested availableSpace).effectiveStart requested = o.effectiveStart := by
  unfold Opening.effectiveStart Opened.opening
  dsimp only
  by_cases heq : o.effectiveStart = requested
  · rw [if_pos (decide_eq_true heq), heq]
  · rw [if_neg (by rwa [decide_eq_true_iff]), h.resolve_left heq]

/-- The range of an attempt that resumes at `resumeFrom`; an attempt from the start sends no
range at all, so that a server without ranges can answer it. -/
def resumeRange (resumeFrom : ℕ) : Option ByteRange :=
  if 0 < resumeFrom then some ⟨resumeFrom, none⟩ else none

theorem requestedStart_resumeRange (resumeFrom : ℕ) :
    ByteRange.requestedStart (resumeRange resumeFrom) = resumeFrom := by
  unfold resumeRange
  by_cases hpos : 0 < resumeFrom
  · rw [if_pos hpos]
    rfl
  · rw [if_neg hpos, Nat.eq_zero_of_not_pos hpos]
    rfl

end Atlas
