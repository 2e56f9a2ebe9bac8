import Atlas.Error
import Atlas.LinkHeader
import Atlas.Lines
import Atlas.WebOrigin

/-!
# Pages of a model listing

A listing of a model hub comes in pages; each page's `Link` header says where the next
one is, and the client asks there with the same bearer token. The hub may be a mirror
nobody vouches for, so the client follows a next page only if its URL starts with the
text of the URL it asked: of the endpoint for the first page, and of the whole URL of the
page before for the others.

A text that starts with another need not be a URL of the same origin, and a URL of the
same origin need not start with the page before. `listing_follows_origin` says what has
to hold of the headers for a run of pages to go wherever the headers say on the
endpoint's origin, and nowhere else.
-/

namespace Atlas

open Text Delimited LinkHeader WebOrigin

/-! ## The source -/

/-- The canonical hub, which is asked when no other endpoint is configured. -/
def hfCanonicalEndpoint : Text := "https://huggingface.co".toList

/-- The endpoint without blanks around it and slashes at its end; an endpoint that is empty
afterwards stands for the public hub. -/
def normalizeEndpoint (endpoint : Text) : Text :=
  let e := trimEndMatches ['/'] endpoint.trim
  if e = [] then hfCanonicalEndpoint else e

/-- The orders in which the hub lists models, as the query names them. -/
inductive ModelSort where
  | trending
  | downloads
  | likes
  | updated

/-- The name of an order in the query of a request, in the spelling the hub's API expects,
as the client writes it into the query. -/
def ModelSort.apiKey : ModelSort → Text
  | trending => "trendingScore".toList
  | downloads => "downloads".toList
  | likes => "likes".toList
  | updated => "lastModified".toList

/-- What is asked of a listing: the search text, the author, the filters, the order and the
page's size. -/
structure ModelListQuery where
  search : Option Text
  author : Option Text
  filters : List Text
  sort : ModelSort
  limit : ℕ

/-- A line of a response's `Link` header: a list of links, or any other text. -/
inductive HeaderLine where
  | links (line : LinkLine)
  | other (text : Text)

/-- The text of a line of the header, as the client finds it in the response. -/
def HeaderLine.text : HeaderLine → Text
  | links line => line.text
  | other text => text

variable {M : Type}

/-- What comes back for a request: nothing, another status than success, or a page of
models (or a body that is none) with the lines of its `Link` header. -/
inductive Answer (M : Type) where
  | failed (reason : Text)
  | status (status : Text)
  | success (link : List HeaderLine) (body : Except Error (List M))

/-- The lines of the `Link` header that came with an answer; an answer that is an error or a
broken connection has none. -/
def Answer.link : Answer M → List HeaderLine
  | success link _ => link
  | _ => []

/-- One page of a listing, with the URL of the next one. -/
structure ModelPage (M : Type) where
  models : List M
  next : Option Text

/-- A request to the hub: its URL, the query added to it, and the token sent along. -/
structure HubRequest where
  url : Text
  query : List (Text × Text)
  token : Option Text

/-- A header line as text, if all of it is visible ASCII. -/
def toStr (line : Text) : Option Text :=
  if line.all fun c => c = '\t' || (0x20 ≤ c.toNat && c.toNat < 0x7F) then some line else none

/-- The text that marks a link to the next page, with its quotes, as the client looks for it
inside of a piece. -/
def nextMark : Text := "rel=\"next\"".toList

/-- The URL of a piece of a header, which stands in angle brackets at the piece's beginning. -/
def pieceUrl (part : Text) : Option Text :=
  let url := trim (part.takeWhile fun c => c ≠ '>')
  if ['<'].isPrefixOf url then some (url.drop 1) else none

/-- The URL of the first piece that is marked, going through the pieces from left to right;
later marked pieces are not looked at. -/
def nextIn : List Text → Option Text
  | [] => none
  | part :: rest =>
    if nextMark <:+: part.trim then pieceUrl part.trim else nextIn rest

/-- The `rel="next"` target of a `Link` header, if any; only the first header line is read,
and only if it is text. -/
def nextLink (link : List Text) : Option Text :=
  match link.head?.bind toStr with
  | none => none
  | some line => nextIn (split ',' line)

/-- A page as it is read from what comes back: the next page counts if its URL starts
with the text of the endpoint. -/
def getModelsPage (endpoint : Text) : Answer M → Except Error (ModelPage M)
  | .failed reason => .error (.other ("hugging face request: ".toList ++ reason))
  | .status status => .error (.other ("hugging face returned ".toList ++ status))
  | .success link body =>
    let next := (nextLink (link.map HeaderLine.text)).filter fun n =>
      (normalizeEndpoint endpoint).isPrefixOf n
    match body with
    | .error e => .error e
    | .ok models => .ok ⟨models, next⟩

/-- The request for the first page, built from the endpoint as the user gave it, less a
slash at its end. -/
def listModels (endpoint : Text) (query : ModelListQuery) (token : Option Text) : HubRequest where
  url := normalizeEndpoint endpoint ++ "/api/models".toList
  query := [("limit".toList, decimal (max query.limit 1)), ("full".toList, "true".toList),
      ("config".toList, "false".toList), ("sort".toList, query.sort.apiKey),
      ("direction".toList, "-1".toList)] ++
    (query.search.filter fun s => s.trim ≠ []).toList.map (fun s => ("search".toList, s)) ++
    (query.author.filter fun a => a.trim ≠ []).toList.map (fun a => ("author".toList, a)) ++
    query.filters.map fun f => ("filter".toList, f)
  token := token

/-- The request for the page a page names as next; the query is empty, as the URL that came
with the page has all of it. -/
def listModelsPage (nextUrl : Text) (token : Option Text) : HubRequest where
  url := nextUrl
  query := []
  token := token

/-! ## Runs -/

/-- A page that was asked for: the request, the text its next page has to start with,
and what came back. -/
structure Visit (M : Type) where
  request : HubRequest
  endpoint : Text
  answer : Answer M

/-- What the client makes of a visit to the hub: the models of the page together with the
URL of the next one, or the error of the answer. -/
def Visit.result (v : Visit M) : Except Error (ModelPage M) := getModelsPage v.endpoint v.answer

/-- The visits after a page, as long as there is a next page and something comes back. -/
def pagesFrom (token : Option Text) (request : HubRequest) (endpoint : Text) :
    List (Answer M) → List (Visit M)
  | [] => []
  | answer :: answers =>
    ⟨request, endpoint, answer⟩ ::
      match getModelsPage endpoint answer with
      | .ok ⟨_, some next⟩ => pagesFrom token (listModelsPage next token) next answers
      | _ => []

/-- A listing: the first page, and then each page's next one, for as long as there are
answers and the page before named a next one that is followed. -/
def listing (endpoint : Text) (query : ModelListQuery) (token : Option Text)
    (answers : List (Answer M)) : List (Visit M) :=
  pagesFrom token (listModels endpoint query token) endpoint answers

/-! ## What the headers say -/

variable (hostForm : Text → Option Text)

/-- A URL of the endpoint's scheme, host and port, which is what the client means to check
when it compares how the texts begin. -/
def SameOrigin (endpoint u : Text) : Prop :=
  ∃ o, origin? hostForm u = some o ∧ origin? hostForm (normalizeEndpoint endpoint) = some o

/-- A header has a link to a next page on the endpoint's origin. -/
def NextOn (endpoint : Text) (lines : List LinkLine) (u : Text) : Prop :=
  (∃ line ∈ lines, ∃ l ∈ line.links, l.IsNext ∧ l.target = u) ∧ SameOrigin hostForm endpoint u

/-- **A page's next is where its header says**: on the endpoint's origin in any case, and
if the header is made of links, exactly the target of a `next` link on that origin. -/
def FollowsNext (endpoint : Text) (v : Visit M) : Prop :=
  ∀ page, v.result = .ok page →
    (∀ u, page.next = some u → SameOrigin hostForm endpoint u) ∧
      ∀ lines : List LinkLine, v.answer.link = lines.map HeaderLine.links →
        ∀ u, page.next = some u ↔ NextOn hostForm endpoint lines u

/-! ## The headers that are read as they are meant -/

/-- Whether a piece without the blanks around it is marked; this is the test the client
makes of each piece between two commas. -/
def marked (part : Text) : Bool := decide (nextMark <:+: part)

/-- The first link with a mark in the line that is read, if the line is visible ASCII. -/
def firstMarked (lines : List LinkLine) : Option Link :=
  match lines.head? with
  | none => none
  | some line =>
    if (toStr line.text).isSome then line.links.find? fun l => l.pieces.any marked else none

/-- The mark of a link stands before its first comma, so that splitting the header at commas
does not part the target from its relation. -/
def MarkedAtOnce (l : Link) : Prop := ∃ part ∈ l.pieces.head?, marked part = true

/-- **A header of links is read as it is meant**, given the text `start` its next page has
to start with. -/
structure ReadAsMeant (endpoint start : Text) (lines : List LinkLine) : Prop where
  /-- A next link on the endpoint's origin has the target of the first marked link, that
  is marked before any comma, and the target starts with the text. -/
  next_marked : ∀ u, NextOn hostForm endpoint lines u → ∃ l, firstMarked lines = some l ∧
    MarkedAtOnce l ∧ l.target = u ∧ start <+: u
  /-- The first marked link, if its target starts with the text, is a next link on the
  endpoint's origin. -/
  marked_next : ∀ l, firstMarked lines = some l → MarkedAtOnce l → start <+: l.target →
    l.IsNext ∧ SameOrigin hostForm endpoint l.target
  /-- What stands behind a comma of that link does not look like a link that starts so. -/
  behind_comma : ∀ l, firstMarked lines = some l → ¬ MarkedAtOnce l →
    ∀ part ∈ l.pieces, marked part = true → ¬ ('<' :: start) <+: part

/-- A header line is harmless: a marked piece of it that begins with a URL that starts with
the text has a URL of the endpoint's origin. -/
def HarmlessLine (endpoint start line : Text) : Prop :=
  ∀ part ∈ (split ',' line).map trim, marked part = true → ∀ u, pieceUrl part = some u →
    start <+: u → SameOrigin hostForm endpoint u

/-- **The condition on a page**: its header is read as it is meant, or, if it is no list
of links, its first line is harmless. -/
def PageCareful (endpoint : Text) (v : Visit M) : Prop :=
  (∀ lines : List LinkLine, v.answer.link = lines.map HeaderLine.links →
      ReadAsMeant hostForm endpoint (normalizeEndpoint v.endpoint) lines) ∧
    ((¬ ∃ lines : List LinkLine, v.answer.link = lines.map HeaderLine.links) →
      ∀ line ∈ v.answer.link.head?,
        HarmlessLine hostForm endpoint (normalizeEndpoint v.endpoint) line.text)

/-! ## Reading a header -/

/-- The link that is found is the first marked piece's. -/
theorem nextIn_eq (parts : List Text) :
    nextIn parts = ((parts.map trim).find? marked).bind pieceUrl := by
  induction parts with
  | nil => rfl
  | cons part rest ih =>
    rw [nextIn, List.map_cons, List.find?_cons]
    by_cases hmark : nextMark <:+: part.trim
    · rw [if_pos hmark, show marked part.trim = true from decide_eq_true hmark]
      rfl
    · rw [if_neg hmark, show marked part.trim = false from decide_eq_false hmark]
      exact ih

theorem find?_pieces (elements : List Element) :
    (elements.flatMap fun e => (split ',' e.text).map trim).find? marked
      = ((elements.filterMap Element.link).find? fun l => l.pieces.any marked).bind
        fun l => l.pieces.find? marked := by
  induction elements with
  | nil => rfl
  | cons e rest ih =>
    rw [List.flatMap_cons, List.find?_append, Element.pieces, ih]
    cases he : e.link with
    | none =>
      rw [List.filterMap_cons_none he]
      rfl
    | some l =>
      rw [List.filterMap_cons_some he, List.find?_cons]
      show (l.pieces.find? marked).or _ = _
      cases hany : l.pieces.any marked with
      | false =>
        rw [List.find?_eq_none.mpr fun part hpart => List.any_eq_false.mp hany part hpart]
        rfl
      | true =>
        obtain ⟨part, hpart, hmark⟩ := List.any_eq_true.mp hany
        obtain ⟨found, hfound⟩ := Option.isSome_iff_exists.mp
          (List.find?_isSome.mpr ⟨part, hpart, hmark⟩)
        show (l.pieces.find? marked).or _ = l.pieces.find? marked
        rw [hfound]
        rfl

/-- **A header of links** is read by its first marked link. -/
theorem nextLink_links (lines : List LinkLine) :
    nextLink ((lines.map HeaderLine.links).map HeaderLine.text)
      = (firstMarked lines).bind fun l => (l.pieces.find? marked).bind pieceUrl := by
  cases lines with
  | nil => rfl
  | cons line rest =>
    unfold nextLink firstMarked
    show (match toStr line.text with
      | none => none
      | some text => nextIn (split ',' text)) = _
    by_cases hvisible : (toStr line.text).isSome = true
    · have htext : toStr line.text = some line.text := by
        unfold toStr at hvisible ⊢
        split
        · rfl
        · rename_i h
          rw [if_neg h] at hvisible
          cases hvisible
      show _ = (if (toStr line.text).isSome = true then _ else none : Option Link).bind _
      rw [if_pos hvisible, htext]
      show nextIn (split ',' line.text) = _
      rw [nextIn_eq]
      by_cases hne : line.elements = []
      · unfold LinkLine.text LinkLine.links
        rw [hne]
        rfl
      · rw [LinkLine.split_text hne, find?_pieces, Option.bind_assoc]
        rfl
    · show _ = (if (toStr line.text).isSome = true then _ else none : Option Link).bind _
      rw [if_neg hvisible, Option.not_isSome_iff_eq_none.mp hvisible]
      rfl

/-! ## The URL of a piece -/

/-- Blanks at the end do not reach beyond a character that is none. -/
theorem rdropWhile_append_cons {α : Type} {p : α → Bool} {c : α} (hc : ¬ p c = true)
    (s t : List α) : (s ++ c :: t).rdropWhile p = s ++ c :: t.rdropWhile p := by
  induction t using List.reverseRecOn with
  | nil => exact List.rdropWhile_concat_neg p s c hc
  | append_singleton t d ih =>
    have hassoc : s ++ c :: (t ++ [d]) = (s ++ c :: t) ++ [d] := by
      rw [List.append_assoc]
      rfl
    rw [hassoc]
    by_cases hd : p d = true
    · rw [List.rdropWhile_concat_pos p _ d hd, List.rdropWhile_concat_pos p t d hd, ih]
    · rw [List.rdropWhile_concat_neg p _ d hd, List.rdropWhile_concat_neg p t d hd, hassoc]

/-- **A link that is marked at once** is read as its target. -/
theorem pieceUrl_markedAtOnce {l : Link} (h : MarkedAtOnce l) :
    (l.pieces.find? marked).bind pieceUrl = some l.target := by
  obtain ⟨part, hpart, hmark⟩ := h
  have hquote : '"' ∈ part := by
    have hinfix : nextMark <:+: part := of_decide_eq_true hmark
    exact hinfix.subset (by decide)
  obtain ⟨first, fields, hs⟩ :=
    List.exists_cons_of_ne_nil (show split ',' l.text ≠ [] from split_ne_nil l.text)
  have hpieces : l.pieces = trim first :: fields.map trim := by
    unfold Link.pieces
    rw [hs]
    rfl
  rw [hpieces] at hpart ⊢
  have hfirst : trim first = part := Option.some.inj hpart
  rw [hfirst, List.find?_cons_of_pos hmark]
  show pieceUrl part = some l.target
  have htext : l.text = ('<' :: l.target) ++ ('>' :: l.params.flatMap Param.text ++ l.after) := by
    unfold Link.text
    rw [List.append_assoc]
  by_cases hcomma : ',' ∈ l.target
  · -- the first piece ends in the target, where no quote is
    obtain ⟨before, rest, htarget, hbefore⟩ := List.eq_append_cons_of_mem hcomma
    have hcut : l.text = ('<' :: before) ++ ',' ::
        (rest ++ ('>' :: l.params.flatMap Param.text ++ l.after)) := by
      rw [htext, htarget, List.cons_append, List.append_assoc]
      rfl
    have hnot : ',' ∉ '<' :: before := by
      rw [List.mem_cons, not_or]
      exact ⟨by decide, hbefore⟩
    rw [hcut, split_append hnot] at hs
    rw [← hfirst, ← (List.cons.inj hs).1] at hquote
    have hmem : '"' ∈ '<' :: before := mem_of_mem_trim hquote
    obtain hlt | hmem := List.mem_cons.mp hmem
    · exact absurd hlt (by decide)
    · have huri := l.target_chars '"' (htarget ▸ List.mem_append_left _ hmem)
      exact absurd rfl (isUriChar_spec huri).2.1
  · have hhead : ',' ∉ ('<' :: l.target) ++ ['>'] := by
      intro hmem
      obtain hmem | hmem := List.mem_append.mp hmem
      · obtain hlt | hmem := List.mem_cons.mp hmem
        · exact absurd hlt (by decide)
        · exact hcomma hmem
      · exact absurd (List.mem_singleton.mp hmem) (by decide)
    obtain ⟨rest, others, hrest⟩ := List.exists_cons_of_ne_nil
      (show split ',' (l.params.flatMap Param.text ++ l.after) ≠ [] from split_ne_nil _)
    have hcut : l.text = (('<' :: l.target) ++ ['>']) ++
        (l.params.flatMap Param.text ++ l.after) := by
      rw [htext, List.append_assoc]
      rfl
    rw [hcut, split_append_of_notMem hhead hrest, List.append_assoc] at hs
    have hshape : part = ('<' :: l.target) ++ '>' :: rest.rdropWhile isWhitespace := by
      rw [← hfirst, ← (List.cons.inj hs).1]
      show ((('<' :: (l.target ++ '>' :: rest)).dropWhile isWhitespace).rdropWhile
        isWhitespace) = _
      rw [List.dropWhile_cons_of_neg (by decide), ← List.cons_append,
        rdropWhile_append_cons (by decide)]
    have hurl : (part.takeWhile fun c => c ≠ '>') = '<' :: l.target := by
      rw [hshape, List.takeWhile_append_of_pos]
      · rw [List.takeWhile_cons_of_neg (by decide), List.append_nil]
      · intro c hc
        obtain rfl | hc := List.mem_cons.mp hc
        · decide
        · exact decide_eq_true (isUriChar_spec (l.target_chars c hc)).1
    have htrim : trim ('<' :: l.target) = '<' :: l.target := by
      refine trim_eq_self fun c hc => ?_
      obtain rfl | hc := List.mem_cons.mp hc
      · decide
      · exact (isUriChar_spec (l.target_chars c hc)).2.2
    unfold pieceUrl
    rw [hurl, htrim]
    rfl

/-- What a piece's URL starts with stands behind the bracket the piece begins with. -/
theorem prefix_of_pieceUrl {s u start : Text} (h : pieceUrl (trim s) = some u)
    (hstart : start <+: u) : ('<' :: start) <+: trim s := by
  unfold pieceUrl at h
  have hurl : trim ((trim s).takeWhile fun c => c ≠ '>') = '<' :: u := by
    have hcases : ∀ t : Text, (if ['<'].isPrefixOf t then some (t.drop 1) else none) = some u →
        t = '<' :: u := by
      intro t ht
      split at ht
      · rename_i hprefix
        obtain ⟨rest, hrest⟩ := List.isPrefixOf_iff_prefix.mp hprefix
        rw [← hrest] at ht ⊢
        exact congrArg ('<' :: ·) (Option.some.inj ht)
      · cases ht
    exact hcases _ h
  have hprefix : trim ((trim s).takeWhile fun c => c ≠ '>') <+: trim s := by
    refine (trim_isPrefix fun c hc => ?_).trans (List.takeWhile_prefix _)
    rw [List.head?_takeWhile] at hc
    exact head?_trim s c (Option.mem_filter_iff.mp hc).1
  rw [hurl] at hprefix
  obtain ⟨rest, rfl⟩ := hstart
  exact (List.prefix_append ('<' :: start) rest).trans hprefix

/-! ## What a page's next is -/

variable {hostForm}

/-- A page that is read names a next page exactly if its header's first mark does and the
URL starts with the text. -/
theorem next_iff {endpoint : Text} {answer : Answer M} {page : ModelPage M}
    (h : getModelsPage endpoint answer = .ok page) (u : Text) : page.next = some u ↔
      nextLink (answer.link.map HeaderLine.text) = some u ∧ normalizeEndpoint endpoint <+: u := by
  cases answer with
  | failed reason => cases h
  | status status => cases h
  | success link body =>
    cases body with
    | error e => cases h
    | ok models =>
      obtain rfl : _ = page := Except.ok.inj h
      show (nextLink (link.map HeaderLine.text)).filter _ = some u ↔ _
      rw [Option.filter_eq_some_iff, List.isPrefixOf_iff_prefix]
      rfl

/-- What the first marked link of an understood header is taken for. -/
theorem nextLink_of_readAsMeant {endpoint start u : Text} {lines : List LinkLine}
    (h : ReadAsMeant hostForm endpoint start lines)
    (hnext : nextLink ((lines.map HeaderLine.links).map HeaderLine.text) = some u)
    (hstart : start <+: u) : NextOn hostForm endpoint lines u := by
  rw [nextLink_links] at hnext
  obtain ⟨l, hl, hpiece⟩ := Option.bind_eq_some_iff.mp hnext
  by_cases honce : MarkedAtOnce l
  · rw [pieceUrl_markedAtOnce honce] at hpiece
    obtain rfl := Option.some.inj hpiece
    obtain ⟨hisNext, hsame⟩ := h.marked_next l hl honce hstart
    refine ⟨?_, hsame⟩
    unfold firstMarked at hl
    split at hl
    · cases hl
    · rename_i line hline
      split at hl
      · exact ⟨line, List.mem_of_mem_head? hline, l, List.mem_of_find?_eq_some hl, hisNext, rfl⟩
      · cases hl
  · obtain ⟨part, hpart, hurl⟩ := Option.bind_eq_some_iff.mp hpiece
    have hmem := List.mem_of_find?_eq_some hpart
    obtain ⟨raw, -, rfl⟩ := List.mem_map.mp hmem
    exact absurd (prefix_of_pieceUrl hurl hstart)
      (h.behind_comma l hl honce _ hmem (List.find?_some hpart))

/-- **A page with a header that is read as it is meant** goes on where the header says. -/
theorem followsNext_of_pageCareful {endpoint : Text} {v : Visit M}
    (h : PageCareful hostForm endpoint v) : FollowsNext hostForm endpoint v := by
  intro page hpage
  refine ⟨fun u hu => ?_, fun lines hlines u => ?_⟩
  · obtain ⟨hnext, hstart⟩ := (next_iff hpage u).mp hu
    by_cases hlinks : ∃ lines : List LinkLine, v.answer.link = lines.map HeaderLine.links
    · obtain ⟨lines, hlines⟩ := hlinks
      rw [hlines] at hnext
      exact (nextLink_of_readAsMeant (h.1 lines hlines) hnext hstart).2
    · -- the first line is read piece by piece, whatever it is
      have hharmless := h.2 hlinks
      unfold nextLink at hnext
      rw [List.head?_map] at hnext
      cases hhead : v.answer.link.head? with
      | none =>
        rw [hhead] at hnext
        cases hnext
      | some line =>
        rw [hhead] at hnext
        have hvisible : ∀ {t : Text}, toStr line.text = some t → t = line.text := by
          intro t ht
          unfold toStr at ht
          split at ht
          · exact (Option.some.inj ht).symm
          · cases ht
        change (match toStr line.text with
          | none => none
          | some text => nextIn (split ',' text)) = some u at hnext
        split at hnext
        · cases hnext
        · rename_i text htext
          obtain rfl := hvisible htext
          rw [nextIn_eq] at hnext
          obtain ⟨part, hpart, hurl⟩ := Option.bind_eq_some_iff.mp hnext
          exact hharmless line hhead part (List.mem_of_find?_eq_some hpart)
            (List.find?_some hpart) u hurl hstart
  · constructor
    · intro hu
      obtain ⟨hnext, hstart⟩ := (next_iff hpage u).mp hu
      rw [hlines] at hnext
      exact nextLink_of_readAsMeant (h.1 lines hlines) hnext hstart
    · intro hu
      obtain ⟨l, hl, honce, rfl, hstart⟩ := (h.1 lines hlines).next_marked u hu
      refine (next_iff hpage l.target).mpr ⟨?_, hstart⟩
      rw [hlines, nextLink_links, hl]
      exact pieceUrl_markedAtOnce honce

/-! ## Runs of pages -/

/-- Each visit of a run has the origin of the first, if each page goes on where its
header says. -/
theorem origin_pagesFrom {endpoint start : Text} {token : Option Text} {o : Origin}
    (ho : origin? hostForm (normalizeEndpoint endpoint) = some o) {answers : List (Answer M)}
    {request : HubRequest} (hrequest : origin? hostForm request.url = some o)
    (h : ∀ v ∈ pagesFrom token request start answers, FollowsNext hostForm endpoint v) :
    ∀ v ∈ pagesFrom token request start answers, origin? hostForm v.request.url = some o := by
  induction answers generalizing request start with
  | nil => exact fun v hv => nomatch hv
  | cons answer answers ih =>
    intro v hv
    obtain rfl | hv := List.mem_cons.mp hv
    · exact hrequest
    · split at hv
      · rename_i models next hpage
        have hfirst := h ⟨request, start, answer⟩ List.mem_cons_self
        obtain ⟨o', hnext, ho'⟩ := (hfirst _ hpage).1 next rfl
        have hsame : o' = o := Option.some.inj (ho'.symm.trans ho)
        rw [hsame] at hnext
        have hlater : ∀ w ∈ pagesFrom token (listModelsPage next token) next answers,
            FollowsNext hostForm endpoint w := by
          intro w hw
          refine h w (List.mem_cons_of_mem _ ?_)
          rw [hpage]
          exact hw
        exact ih hnext hlater v hv
      · cases hv

/-- **A listing follows its endpoint's origin**: if each page's header is read as it is
meant, each page's next is exactly where the header says, and every request, which carries
the token, goes to the endpoint's scheme, host and port. -/
theorem listing_follows_origin {endpoint : Text} {query : ModelListQuery} {token : Option Text}
    {answers : List (Answer M)}
    (h : ∀ v ∈ listing endpoint query token answers, PageCareful hostForm endpoint v) :
    (∀ v ∈ listing endpoint query token answers, FollowsNext hostForm endpoint v) ∧
      ∀ o, origin? hostForm (normalizeEndpoint endpoint) = some o →
        ∀ v ∈ listing endpoint query token answers,
          origin? hostForm v.request.url = some o := by
  have hfollows : ∀ v ∈ listing endpoint query token answers, FollowsNext hostForm endpoint v :=
    fun v hv => followsNext_of_pageCareful (h v hv)
  refine ⟨hfollows, fun o ho => origin_pagesFrom ho ?_ hfollows⟩
  exact origin?_append hostForm ho (by decide) (by decide) "api/models".toList

/-! ## A run that follows its endpoint, and one that does not -/

/-- No blank at all, where the grammar of the header allows some. -/
def noBlanks : Blanks := ⟨[], fun _ h => nomatch h⟩

/-- The value `next`, in quotes, as the hub itself writes the relation. -/
def nextValue : ParamValue :=
  .quoted [⟨'n', false, by decide, by decide⟩, ⟨'e', false, by decide, by decide⟩,
    ⟨'x', false, by decide, by decide⟩, ⟨'t', false, by decide, by decide⟩]

/-- A link to the next page, as hubs write it: the target in angle brackets and one
parameter, `rel`, whose value is in quotes. -/
def nextTo (target : Text) (h : target.all isUriChar = true) : Link :=
  ⟨target, [⟨noBlanks, ⟨[' '], fun _ hc => Or.inl (List.mem_singleton.mp hc)⟩, "rel".toList,
    some ⟨noBlanks, noBlanks, nextValue⟩,
    by decide, List.all_eq_true.mp (show "rel".toList.all isTokenChar = true by decide)⟩],
    noBlanks, List.all_eq_true.mp h⟩

/-- A line of the header with one link and nothing around it. -/
def nextLine (l : Link) : LinkLine := ⟨[⟨noBlanks, some l⟩]⟩

/-- A link to the second page of the hub, whose target is on the hub itself and has no
comma, so that a listing follows it. -/
def firstCursor : Link :=
  nextTo "https://hub.example/api/models?cursor=1".toList (by decide +kernel)

/-- A link to its third page, on the endpoint's own origin. -/
def secondCursor : Link :=
  nextTo "https://hub.example/api/models?cursor=2".toList (by decide +kernel)

/-- A link to another host, whose URL starts with the text of the hub's. -/
def elsewhere : Link := nextTo "https://hub.example.evil/models".toList (by decide +kernel)

/-- The base URL of the hub that is queried in the examples. -/
def hubEndpoint : Text := "https://hub.example".toList

/-- The origin of the hub: its scheme, its host and the default port. -/
def hubOrigin : Origin := ⟨"https".toList, "hub.example".toList, 443⟩

/-- The query for every model there is, twenty to a page. -/
def allModels : ModelListQuery := ⟨none, none, [], .trending, 20⟩

/-- A host as it is, in lower case; an empty one is no host. -/
def lowerHost (host : Text) : Option Text :=
  if host = [] then none else some host.toAsciiLowercase

/-- A page with one link in its header and no model in its body. -/
def linkedPage (l : Link) : Answer Unit := .success [.links (nextLine l)] (.ok [])

/-- An answer without a link to another page, at which the listing ends. -/
def lastPage : Answer Unit := .success [] (.ok [])

theorem isNext_nextTo (target : Text) (h : target.all isUriChar = true) :
    (nextTo target h).IsNext :=
  ⟨rfl, "next".toList, rfl, by decide⟩

/-- A page with one link, that is marked at once, goes on to its target. -/
theorem getModelsPage_linkedPage {l : Link} {endpoint : Text}
    (hfirst : firstMarked [nextLine l] = some l) (honce : MarkedAtOnce l)
    (hstart : (normalizeEndpoint endpoint).isPrefixOf l.target = true) :
    getModelsPage endpoint (linkedPage l) = .ok ⟨[], some l.target⟩ := by
  have hnext : nextLink ([HeaderLine.links (nextLine l)].map HeaderLine.text)
      = some l.target := by
    have hlinks := nextLink_links [nextLine l]
    rw [hfirst] at hlinks
    exact hlinks.trans (pieceUrl_markedAtOnce honce)
  show Except.ok (ModelPage.mk [] ((nextLink ([HeaderLine.links (nextLine l)].map
    HeaderLine.text)).filter fun n => (normalizeEndpoint endpoint).isPrefixOf n)) = _
  rw [hnext, Option.filter_some_pos hstart]

theorem firstMarked_nextLine {l : Link} (hvisible : (toStr (nextLine l).text).isSome = true)
    (hmark : l.pieces.any marked = true) : firstMarked [nextLine l] = some l := by
  unfold firstMarked
  show (if (toStr (nextLine l).text).isSome = true then _ else none) = some l
  rw [if_pos hvisible]
  exact List.find?_cons_of_pos hmark

theorem firstMarked_firstCursor : firstMarked [nextLine firstCursor] = some firstCursor :=
  firstMarked_nextLine (by decide +kernel) (by decide +kernel)

theorem markedAtOnce_firstCursor : MarkedAtOnce firstCursor :=
  ⟨_, rfl, by decide +kernel⟩

/-- The links of a header are all there is to it. -/
theorem links_eq_of_linkedPage {l : Link} {lines : List LinkLine}
    (h : (linkedPage l).link = lines.map HeaderLine.links) : lines = [nextLine l] := by
  cases lines with
  | nil => cases h
  | cons line rest =>
    obtain ⟨hline, hrest⟩ := List.cons.inj h
    rw [HeaderLine.links.inj hline, List.map_eq_nil_iff.mp hrest.symm]

/-- A listing of two pages, the second named by the first. -/
theorem listing_twoPages : listing hubEndpoint allModels none [linkedPage firstCursor, lastPage]
    = [⟨listModels hubEndpoint allModels none, hubEndpoint, linkedPage firstCursor⟩,
      ⟨listModelsPage firstCursor.target none, firstCursor.target, lastPage⟩] := by
  have hpage : getModelsPage hubEndpoint (linkedPage firstCursor)
      = .ok ⟨[], some firstCursor.target⟩ :=
    getModelsPage_linkedPage firstMarked_firstCursor markedAtOnce_firstCursor (by decide +kernel)
  unfold listing pagesFrom
  rw [hpage]
  rfl

/-- A listing of two pages follows its endpoint's origin. -/
theorem twoPages_follow_origin :
    (∀ v ∈ listing hubEndpoint allModels none [linkedPage firstCursor, lastPage],
        FollowsNext lowerHost hubEndpoint v) ∧
      ∀ o, origin? lowerHost (normalizeEndpoint hubEndpoint) = some o →
        ∀ v ∈ listing hubEndpoint allModels none [linkedPage firstCursor, lastPage],
          origin? lowerHost v.request.url = some o := by
  refine listing_follows_origin fun v hv => ?_
  have hsame : SameOrigin lowerHost hubEndpoint firstCursor.target :=
    ⟨hubOrigin, by decide +kernel, by decide +kernel⟩
  rw [listing_twoPages] at hv
  obtain rfl | hv := List.mem_cons.mp hv
  · refine ⟨fun lines hlines => ?_, fun hnot => absurd ⟨[nextLine firstCursor], rfl⟩ hnot⟩
    obtain rfl := links_eq_of_linkedPage hlines
    refine ⟨?_, ?_, ?_⟩
    · rintro u ⟨⟨line, hline, l, hl, -, rfl⟩, -⟩
      obtain rfl := List.mem_singleton.mp hline
      obtain rfl := List.mem_singleton.mp hl
      refine ⟨firstCursor, firstMarked_firstCursor, markedAtOnce_firstCursor, rfl, ?_⟩
      exact List.isPrefixOf_iff_prefix.mp (by decide +kernel)
    · intro l hl _ _
      obtain rfl := Option.some.inj (firstMarked_firstCursor.symm.trans hl)
      exact ⟨isNext_nextTo _ _, hsame⟩
    · intro l hl hnot
      obtain rfl := Option.some.inj (firstMarked_firstCursor.symm.trans hl)
      exact absurd markedAtOnce_firstCursor hnot
  · obtain rfl := List.mem_singleton.mp hv
    refine ⟨fun lines hlines => ?_, fun hnot => absurd ⟨[], rfl⟩ hnot⟩
    obtain rfl : lines = [] := List.map_eq_nil_iff.mp hlines.symm
    refine ⟨?_, ?_, ?_⟩
    · rintro u ⟨⟨line, hline, -⟩, -⟩
      cases hline
    · exact fun l hl => nomatch hl
    · exact fun l hl => nomatch hl

/-- **The token leaves the origin, and a listing is cut short.** A hostile mirror names a
next page on a host whose name starts with its own; and an honest hub's second page names
a third one, on the same origin, and is taken to be the last. -/
theorem pagination_leaves_origin :
    (∃ v ∈ listing hubEndpoint allModels (some "secret".toList) [linkedPage elsewhere, lastPage],
        v.request.token = some "secret".toList ∧
          origin? lowerHost (normalizeEndpoint hubEndpoint) = some hubOrigin ∧
          origin? lowerHost v.request.url ≠ some hubOrigin) ∧
      ∃ v ∈ listing hubEndpoint allModels none
          [linkedPage firstCursor, linkedPage secondCursor, lastPage],
        NextOn lowerHost hubEndpoint [nextLine secondCursor] secondCursor.target ∧
          ¬ FollowsNext lowerHost hubEndpoint v := by
  have hnextOn : NextOn lowerHost hubEndpoint [nextLine secondCursor] secondCursor.target :=
    ⟨⟨_, List.mem_singleton.mpr rfl, _, List.mem_singleton.mpr rfl, isNext_nextTo _ _, rfl⟩,
      hubOrigin, by decide +kernel, by decide +kernel⟩
  -- two lists of pages: one is led to a host whose name begins with the endpoint's text, the other
  -- stops at a link that the endpoint's own origin gives
  constructor
  · have hpage : getModelsPage hubEndpoint (linkedPage elsewhere)
        = .ok ⟨[], some elsewhere.target⟩ :=
      getModelsPage_linkedPage
        (firstMarked_nextLine (by decide +kernel) (by decide +kernel))
        ⟨_, rfl, by decide +kernel⟩ (by decide +kernel)
    refine ⟨⟨listModelsPage elsewhere.target (some "secret".toList), elsewhere.target,
      lastPage⟩, ?_, rfl, by decide +kernel, by decide +kernel⟩
    unfold listing pagesFrom
    rw [hpage]
    exact List.mem_cons_of_mem _ List.mem_cons_self
  · have hpage : getModelsPage hubEndpoint (linkedPage firstCursor)
        = .ok ⟨[], some firstCursor.target⟩ :=
      getModelsPage_linkedPage firstMarked_firstCursor markedAtOnce_firstCursor
        (by decide +kernel)
    refine ⟨⟨listModelsPage firstCursor.target none, firstCursor.target,
      linkedPage secondCursor⟩, ?_, hnextOn, fun hfollows => ?_⟩
    · unfold listing pagesFrom
      rw [hpage]
      exact List.mem_cons_of_mem _ List.mem_cons_self
    · obtain ⟨page, hread⟩ : ∃ page, getModelsPage firstCursor.target
          (linkedPage secondCursor) = .ok page := ⟨_, rfl⟩
      have hnext := ((hfollows page hread).2 [nextLine secondCursor] rfl _).mpr hnextOn
      obtain ⟨-, hstart⟩ := (next_iff hread _).mp hnext
      exact absurd (List.isPrefixOf_iff_prefix.mpr hstart) (by decide +kernel)

end Atlas
