import Atlas.Manifest

/-!
# Credentials

A source that requires a token gets the one held for its service, and the
service of a mirror is named after its host. Two readings of the same URL are
involved: the service name is cut out of the text of the URL (`hostOf`), while
the request goes to the host that a URL parser finds in it. And a token may
come from an environment variable, whose name is the service with every
character that is no letter or digit replaced by an underscore.

So a token can reach a host it was not meant for in two ways: the two readings
differ, or the variable belongs to another service whose name folds to the
same. The result says that there is no third way, and exactly when neither
happens (`request_service_iff`).

A token here remembers the service it was stored or exported for; nothing reads
that. The URL parser is a parameter.
-/

namespace Atlas

open Text

/-! ## Stores -/

/-- A secret, and the service the user stored or exported it for. -/
structure Token where
  secret : Text
  service : Text
  deriving DecidableEq, Repr

/-- The environment variable of a service: its letters and digits in capitals, and an
underscore for anything else. -/
def envKey (service : Text) : Text :=
  "NOEMA_TOKEN_".toList ++ service.map fun c =>
    if isAsciiAlphanumeric c then c.toUpper else '_'

/-- The other variables a service's token may be in; only Hugging Face has any. -/
def envAliases (service : Text) : List Text :=
  if service = "huggingface".toList then
    ["HF_TOKEN".toList, "HUGGING_FACE_HUB_TOKEN".toList, "HUGGINGFACE_TOKEN".toList]
  else []

/-- Environment variables holding tokens, each under a name of its service, so that no
variable answers for another service. -/
structure Environment where
  var : Text → Option Token
  named : ∀ name t, var name = some t →
    envKey t.service = name ∨ name ∈ envAliases t.service

/-- The persistent store, holding tokens under their service; it never hands out the token
of another service. -/
structure Keystore where
  get : Text → Except Error (Option Token)
  own : ∀ service t, get service = .ok (some t) → t.service = service

/-- A variable that is set and not empty, since an empty one counts as not set. -/
def Environment.read (env : Environment) (name : Text) : Option Token :=
  (env.var name).filter fun t => !t.secret.isEmpty

/-- Read-only credential resolution from environment variables: the service's own first, and
then its aliases in order. -/
def Environment.get (env : Environment) (service : Text) : Option Token :=
  (env.read (envKey service)).or ((envAliases service).findSome? env.read)

/-- Resolve a token for a service, preferring environment variables and falling
back to the persistent store. -/
def resolveToken (env : Environment) (keystore : Keystore) (service : Text) :
    Except Error (Option Token) :=
  match env.get service with
  | some t => .ok (some t)
  | none => keystore.get service

/-! ## Services -/

/-- The host of a URL, cut out of its text: what is between the first `://` and
the next slash. -/
def hostOf (url : Text) : Text :=
  match splitOnce "://".toList url with
  | none => url
  | some (_, rest) =>
    let part := match splitOnce "://".toList rest with
      | some (part, _) => part
      | none => rest
    part.takeWhile (· ≠ '/')

/-- The service of the host of a mirror, under which its token is kept. -/
def mirrorService (host : Text) : Text := "https:".toList ++ host

/-- The keystore service namespace for a source's credentials; it depends on the class, and
for mirrors and LAN peers on the host in the URL. -/
def serviceForSource : Source → Text
  | .huggingface .. => "huggingface".toList
  | .httpsMirror url _ => mirrorService (hostOf url)
  | .iroh .. => "iroh".toList
  | .bittorrentV2 .. => "bittorrent".toList
  | .lanPeer url _ => "lan:".toList ++ hostOf url
  | .localFile _ => "local".toList

/-- The service whose token a source requires, or nothing where its policy asks for none. -/
def authRequirement (source : Source) : Option Text :=
  match source.auth with
  | .none => none
  | .token => some (serviceForSource source)

/-- The token an attempt at a source goes with: none where none is asked, and otherwise the
variable's before the keystore's. -/
def attemptToken (env : Environment) (keystore : Keystore) (source : Source) :
    Except Error (Option Token) :=
  match authRequirement source with
  | none => .ok none
  | some service =>
    match resolveToken env keystore service with
    | .error e => .error e
    | .ok none => .error (.authRequired source.sourceId)
    | .ok (some t) => .ok (some t)

/-! ## Requests -/

/-- A request as it leaves: the host and port it goes to, and the bearer token. -/
structure HttpRequest where
  host : Text
  bearer : Option Token
  deriving DecidableEq, Repr

/-- Send a request for a URL, to the host the URL parser finds in it. -/
def openUrl (contacted : Text → Option Text) (url : Text) (token : Option Token)
    (sourceId : Text) : Except Error HttpRequest :=
  match contacted url with
  | none => .error (.transport sourceId (.other "builder error".toList))
  | some host => .ok ⟨host, token⟩

/-- The request an attempt at a mirror sends, or the error of a keystore that could not be read. -/
def mirrorRequest (contacted : Text → Option Text) (env : Environment)
    (keystore : Keystore) (url : Text) (auth : AuthPolicy) : Except Error HttpRequest :=
  match attemptToken env keystore (.httpsMirror url auth) with
  | .error e => .error e
  | .ok token => openUrl contacted url token (Source.httpsMirror url auth).sourceId

/-- What is read for a URL belongs to a host: the variable read for it is set,
and was exported for the host's service, or it is not set, and the text of the
URL names the host. -/
def ReadsOwn (env : Environment) (url host : Text) : Prop :=
  match env.read (envKey (mirrorService (hostOf url))) with
  | some t => t.service = mirrorService host
  | none => hostOf url = host

/-- The service of a mirror has no other variable. -/
theorem envAliases_mirrorService (host : Text) : envAliases (mirrorService host) = [] := by
  refine if_neg fun h => ?_
  have htake : (mirrorService host).take 6 = "https:".toList := List.take_left' (by decide)
  rw [h] at htake
  exact absurd htake (by decide)

theorem mirrorService_injective : Function.Injective mirrorService :=
  List.append_right_injective _

/-- Where the token of a mirror comes from: the variable read for its URL, or
the keystore's entry for the host the text of the URL names. -/
theorem attemptToken_mirror {env : Environment} {keystore : Keystore} {url : Text}
    {auth : AuthPolicy} {t : Token}
    (h : attemptToken env keystore (.httpsMirror url auth) = .ok (some t)) :
    env.read (envKey (mirrorService (hostOf url))) = some t ∨
      env.read (envKey (mirrorService (hostOf url))) = none ∧
        t.service = mirrorService (hostOf url) := by
  unfold attemptToken authRequirement at h
  cases auth with
  | none => cases h
  | token =>
    have hget : env.get (mirrorService (hostOf url)) =
        env.read (envKey (mirrorService (hostOf url))) := by
      unfold Environment.get
      rw [envAliases_mirrorService]
      exact Option.or_none
    dsimp only [Source.auth, serviceForSource, resolveToken] at h
    rw [hget] at h
    cases hread : env.read (envKey (mirrorService (hostOf url))) with
    | some t' =>
      rw [hread] at h
      exact Or.inl (congrArg some (Option.some.inj (Except.ok.inj h)))
    | none =>
      rw [hread] at h
      dsimp only at h
      cases hkey : keystore.get (mirrorService (hostOf url)) with
      | error e =>
        rw [hkey] at h
        cases h
      | ok entry =>
        rw [hkey] at h
        cases entry with
        | none => cases h
        | some t' =>
          cases h
          exact Or.inr ⟨rfl, keystore.own _ _ hkey⟩

/-- **A token reaches the host it was stored or exported for, exactly when what
is read for the URL belongs to the host that is contacted.** -/
theorem request_service_iff {contacted : Text → Option Text} {env : Environment}
    {keystore : Keystore} {url : Text} {auth : AuthPolicy} {host : Text} {t : Token}
    (h : mirrorRequest contacted env keystore url auth = .ok ⟨host, some t⟩) :
    t.service = mirrorService host ↔ ReadsOwn env url host := by
  unfold mirrorRequest at h
  cases htoken : attemptToken env keystore (.httpsMirror url auth) with
  | error e =>
    rw [htoken] at h
    cases h
  | ok token =>
    rw [htoken] at h
    have hsent : token = some t := by
      unfold openUrl at h
      cases hcontacted : contacted url with
      | none =>
        rw [hcontacted] at h
        cases h
      | some host' =>
        rw [hcontacted] at h
        cases h
        rfl
    rw [hsent] at htoken
    obtain hread | ⟨hread, hown⟩ := attemptToken_mirror htoken
    · unfold ReadsOwn
      rw [hread]
    · unfold ReadsOwn
      rw [hread, hown]
      exact mirrorService_injective.eq_iff

/-! ## A URL read in two ways -/

/-- A character a URL parser drops at the ends of a URL. -/
def isC0ControlOrSpace (c : Char) : Bool := c.toNat ≤ 0x20

/-- The host of an HTTP URL, and its port unless that is the default one, the
way the URL standard finds them when the host is a plain ASCII domain: any
slashes or backslashes after the colon of the scheme are skipped, the authority
ends at the next one, and what precedes its last `@` is no host. -/
def plainUrlHost (url : Text) : Option Text :=
  let s := ((url.dropWhile isC0ControlOrSpace).rdropWhile isC0ControlOrSpace).filter
    fun c => c ≠ '\t' ∧ c ≠ '\n' ∧ c ≠ '\r'
  match splitOnce ":".toList s with
  | none => none
  | some (scheme, rest) =>
    let scheme := scheme.toAsciiLowercase
    if scheme ≠ "https".toList ∧ scheme ≠ "http".toList then none
    else
      let rest := rest.dropWhile fun c => c = '/' ∨ c = '\\'
      let authority := rest.takeWhile fun c => c ≠ '/' ∧ c ≠ '\\' ∧ c ≠ '?' ∧ c ≠ '#'
      let hostPort := authority.rtakeWhile (· ≠ '@')
      let host : Text := hostPort.takeWhile (· ≠ ':')
      let port := (hostPort.dropWhile (· ≠ ':')).drop 1
      if host = [] ∨ !host.all (fun c => isAsciiAlphanumeric c || c = '-' || c = '.') ∨
          !port.all (fun c => '0' ≤ c ∧ c ≤ '9') then none
      else if port = [] ∨ port = (if scheme = "https".toList then "443".toList else "80".toList)
      then some host.toAsciiLowercase
      else some (host.toAsciiLowercase ++ ':' :: port)

/-- No variable is set, so every token comes from the keystore. -/
def emptyEnvironment : Environment := ⟨fun _ => none, fun _ _ h => (nomatch h)⟩

/-- A keystore that holds one token and answers nothing for every other service. -/
def keystoreOf (t : Token) : Keystore where
  get service := .ok (if service = t.service then some t else none)
  own service t' h := by
    by_cases hs : service = t.service
    · rw [if_pos hs] at h
      cases h
      exact hs.symm
    · rw [if_neg hs] at h
      cases h

/-- A token for the mirror `good.example`, kept under that host's service. -/
def goodToken : Token := ⟨"s3cret".toList, mirrorService "good.example".toList⟩

/-- A URL whose text names `good.example` and which goes to `evil.example`, since clients
skip what stands before the second colon. -/
def twoHostsUrl : Text := "https:evil.example://good.example/model.gguf".toList

/-- **A token reaches another host**: the keystore's token for `good.example`
goes to `evil.example`. And the variables of two services can be one. -/
theorem request_reaches_other_host :
    mirrorRequest plainUrlHost emptyEnvironment (keystoreOf goodToken) twoHostsUrl .token =
        .ok ⟨"evil.example".toList, some goodToken⟩ ∧
      goodToken.service ≠ mirrorService "evil.example".toList ∧
      envKey (mirrorService "a-b.example".toList) = envKey (mirrorService "a.b.example".toList) ∧
      mirrorService "a-b.example".toList ≠ mirrorService "a.b.example".toList := by
  decide +kernel

/-- A token for `good.example` reaches `good.example`. -/
theorem request_reaches_own_host :
    mirrorRequest plainUrlHost emptyEnvironment (keystoreOf goodToken)
        "https://good.example/model.gguf".toList .token =
        .ok ⟨"good.example".toList, some goodToken⟩ ∧
      goodToken.service = mirrorService "good.example".toList := by
  have hsent : mirrorRequest plainUrlHost emptyEnvironment (keystoreOf goodToken)
      "https://good.example/model.gguf".toList .token =
        .ok ⟨"good.example".toList, some goodToken⟩ := by
    decide +kernel
  exact ⟨hsent, (request_service_iff hsent).mpr (by
    show hostOf _ = _
    decide +kernel)⟩

end Atlas
