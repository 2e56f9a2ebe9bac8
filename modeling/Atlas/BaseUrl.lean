import Atlas.AnnounceAuth
import Atlas.TextCut

/-!
# The base URL of a registry

A device and a registry each hold the registry's base URL, and may write it
differently. `BaseUrl` is what such a URL says, and `WrittenUrl` a way of writing it:
with whitespace around it, slashes at its end, the scheme in any case, the host in any
case, and the default port written or not.

The audience of a signature is the URL's canonical form (`canonicalAudience_text`), and
that form determines the URL's origin and path (`SpelledAlike.same`). It is no more than a
form of the text, though. Letters outside ASCII keep their case, a port keeps its leading
zeros, and a user part stays where it is: two URLs have one canonical form exactly if their
schemes are the same, their users and hosts differ in the case of ASCII letters only, their
ports are written alike, a default port aside, and their paths are one text
(`canonical_eq_iff`).
-/

namespace Atlas

open Text

/-! ## What a URL says -/

/-- The two schemes that a base URL can have. -/
inductive HttpScheme where
  | http
  | https
  deriving DecidableEq, Repr

/-- The scheme as it is written in lower case, without the colon. -/
def HttpScheme.name : HttpScheme → Text
  | http => "http".toList
  | https => "https".toList

/-- The port that is meant when none is written, as a text. -/
def HttpScheme.defaultPort : HttpScheme → Text
  | http => "80".toList
  | https => "443".toList

/-- The number of that port, for comparing ports by what they are rather than by their text. -/
def HttpScheme.defaultNumber : HttpScheme → ℕ
  | http => 80
  | https => 443

/-- How a reader of URLs takes what stands in them: a host with no regard to letter case, and
a path to where it leads. Which letters have a case is in the tables of Unicode; that those of
ASCII do is all that is known of them here, and of paths nothing is. -/
structure UrlReading where
  host : Text → Text
  path : Text → Text
  /-- Hosts that differ in the case of ASCII letters are the same. -/
  ascii : ∀ s t, s.toAsciiLowercase = t.toAsciiLowercase → host s = host t

/-- The base URL of a service: no query and no fragment, and each part of it spelled with
characters that can stand there. -/
structure BaseUrl where
  scheme : HttpScheme
  userinfo : Option Text
  host : Text
  port : Option Text
  /-- What follows the authority, from its first slash on. -/
  path : Text
  userinfo_chars : ∀ u ∈ userinfo, ∀ c ∈ u, c ∉ ['/', '\\', '?', '#', '@']
  host_ne : host ≠ []
  host_chars : ∀ c ∈ host, c ∉ ['/', '\\', '?', '#', '@'] ∧ isWhitespace c = false
  /-- Only an address in brackets holds a colon. -/
  host_colon : ':' ∈ host → host.getLast? = some ']'
  port_digits : ∀ p ∈ port, p ≠ [] ∧ ∀ c ∈ p, c.isDigit = true
  path_start : path = [] ∨ path.head? = some '/'
  path_end : ∀ c ∈ path.getLast?, c ≠ '/' ∧ isWhitespace c = false

namespace BaseUrl

/-- The port, unless it is the scheme's default; the canonical form leaves the default out
and keeps any other text as it is. -/
def effectivePort (u : BaseUrl) : Option Text := u.port.filter fun p => p ≠ u.scheme.defaultPort

/-- The number a port is, in decimal, so that `0443` and `443` are the same port. -/
def portValue (p : Text) : ℕ := Nat.ofDigitChars 10 p 0

/-- The number of the port that is meant: the one written, or the scheme's default. -/
def portNumber (u : BaseUrl) : ℕ := u.port.elim u.scheme.defaultNumber portValue

/-- Where the service is: the scheme, the host in any letter case, and the number of the port. -/
def origin (R : UrlReading) (u : BaseUrl) : HttpScheme × Text × ℕ :=
  (u.scheme, R.host u.host, u.portNumber)

/-- **Two URLs denote the same**: one origin and one path, whatever user they name. -/
def Same (R : UrlReading) (u v : BaseUrl) : Prop :=
  u.origin R = v.origin R ∧ R.path u.path = R.path v.path

/-- The user part of an authority with the `@` behind it, or nothing where there is none. -/
def userText : Option Text → Text
  | none => []
  | some u => u ++ ['@']

/-- **Two URLs are spelled alike**: their users and hosts agree up to the case of ASCII
letters, their ports are the same text, or both left to the default, and their paths are the
same text. -/
structure SpelledAlike (u v : BaseUrl) : Prop where
  user : (userText u.userinfo).toAsciiLowercase = (userText v.userinfo).toAsciiLowercase
  host : u.host.toAsciiLowercase = v.host.toAsciiLowercase
  port : u.effectivePort = v.effectivePort
  path : u.path = v.path

/-- The port part of an authority with the `:` before it, or nothing where there is none. -/
def portText : Option Text → Text
  | none => []
  | some p => ':' :: p

/-- User, host and port, as they are written between the scheme and the path. -/
def authority (u : BaseUrl) : Text := userText u.userinfo ++ (u.host ++ portText u.port)

/-- The canonical form: scheme, user and host in ASCII lower case, the port only where it is
not the default, and the path as written. -/
def canonical (u : BaseUrl) : Text :=
  u.scheme.name ++ ("://".toList ++ (((userText u.userinfo ++ u.host).toAsciiLowercase ++
    portText u.effectivePort) ++ u.path))

/-! ## Ports -/

theorem toLower_of_isDigit {c : Char} (h : c.isDigit = true) : c.toLower = c := by
  refine dif_neg fun hupper => ?_
  have hle : c.val ≤ '9'.val := (of_decide_eq_true (Bool.and_eq_true_iff.mp h).2)
  have hle' : c.val.toNat ≤ 57 := UInt32.le_iff_toNat_le.mp hle
  have hge : 65 ≤ c.val.toNat := UInt32.le_iff_toNat_le.mp hupper.1
  omega

/-- A port is its own folded form. -/
theorem toAsciiLowercase_portText {o : Option Text}
    (h : ∀ p ∈ o, p ≠ [] ∧ ∀ c ∈ p, c.isDigit = true) :
    (portText o).toAsciiLowercase = portText o := by
  cases o with
  | none => rfl
  | some p =>
    have hp : p.toAsciiLowercase = p := by
      unfold toAsciiLowercase
      rw [List.map_congr_left fun c hc => toLower_of_isDigit ((h p rfl).2 c hc), List.map_id']
    show ':'.toLower :: p.toAsciiLowercase = ':' :: p
    rw [hp]
    rfl

/-- No character of a default port's suffix but its colon is anything but a digit. -/
theorem colon_not_mem_of_digits {p : Text} (h : ∀ c ∈ p, c.isDigit = true) : ':' ∉ p :=
  fun hmem => absurd (h ':' hmem) (by decide)

/-- A written port ends with the default's text exactly if it is the default. -/
theorem port_suffix {q p s : Text} (hp : ∀ c ∈ p, c.isDigit = true) (hq : ':' ∉ q)
    (h : ':' :: q <:+ s ++ ':' :: p) : p = q := by
  have hcut : ∀ {a b : Text}, ':' ∉ a → ':' :: b <:+ a → False := by
    rintro a b ha ⟨t, rfl⟩
    exact ha (List.mem_append_right t List.mem_cons_self)
  obtain hshort | hlong :=
    List.suffix_or_suffix_of_suffix h (List.suffix_append s (':' :: p))
  · obtain heq | htail := List.suffix_cons_iff.mp hshort
    · exact (List.cons.inj heq).2.symm
    · exact (hcut (colon_not_mem_of_digits hp) htail).elim
  · obtain heq | htail := List.suffix_cons_iff.mp hlong
    · exact (List.cons.inj heq).2
    · exact (hcut hq htail).elim

theorem defaultPort_digits (s : HttpScheme) :
    s.defaultPort ≠ [] ∧ ∀ c ∈ s.defaultPort, c.isDigit = true := by
  cases s with
  | http => exact ⟨by decide, forall_mem_of_all (by decide +kernel)⟩
  | https => exact ⟨by decide, forall_mem_of_all (by decide +kernel)⟩

/-- A host does not end like a port. -/
theorem host_not_suffix {q : Text} (hne : q ≠ []) (hdigits : ∀ c ∈ q, c.isDigit = true)
    (u : BaseUrl) : ¬ ':' :: q <:+ u.host.toAsciiLowercase := by
  rintro ⟨t, ht⟩
  have hcolon : ':' ∈ u.host := by
    rw [← mem_toAsciiLowercase (by decide), ← ht]
    exact List.mem_append_right t List.mem_cons_self
  -- the last character is a bracket, and a digit
  have hlast := congrArg List.getLast? ht
  rw [toAsciiLowercase, List.getLast?_map, u.host_colon hcolon, List.getLast?_append_cons,
    List.getLast?_cons_of_ne_nil hne] at hlast
  exact absurd (hdigits ']' (List.mem_of_getLast? hlast)) (by decide)

theorem userHost_not_suffix {q : Text} (hne : q ≠ []) (hdigits : ∀ c ∈ q, c.isDigit = true)
    (u : BaseUrl) : ¬ ':' :: q <:+ (userText u.userinfo ++ u.host).toAsciiLowercase := by
  intro h
  cases huser : u.userinfo with
  | none =>
    rw [huser] at h
    exact u.host_not_suffix hne hdigits h
  | some v =>
    have hat : (userText (some v) ++ u.host).toAsciiLowercase =
        v.toAsciiLowercase ++ '@' :: u.host.toAsciiLowercase := by
      show ((v ++ ['@']) ++ u.host).toAsciiLowercase = _
      rw [toAsciiLowercase_append, toAsciiLowercase_append, List.append_assoc]
      rfl
    rw [huser, hat] at h
    obtain hshort | hlong := List.suffix_or_suffix_of_suffix h
      (List.suffix_append v.toAsciiLowercase ('@' :: u.host.toAsciiLowercase))
    · obtain heq | htail := List.suffix_cons_iff.mp hshort
      · exact absurd (List.cons.inj heq).1 (by decide)
      · exact u.host_not_suffix hne hdigits htail
    · obtain hcolon | hmem := List.mem_cons.mp (hlong.subset List.mem_cons_self)
      · exact absurd hcolon (by decide)
      · exact absurd (hdigits '@' hmem) (by decide)

/-- **The default port is taken away**, and no other. -/
theorem trim_authority (u : BaseUrl) :
    trimEndMatches (':' :: u.scheme.defaultPort) u.authority.toAsciiLowercase =
      (userText u.userinfo ++ u.host).toAsciiLowercase ++ portText u.effectivePort := by
  obtain ⟨hne, hdigits⟩ := defaultPort_digits u.scheme
  have hauthority : u.authority.toAsciiLowercase =
      (userText u.userinfo ++ u.host).toAsciiLowercase ++ portText u.port := by
    unfold authority
    rw [← List.append_assoc, toAsciiLowercase_append, toAsciiLowercase_portText u.port_digits]
  have huser := u.userHost_not_suffix hne hdigits
  rw [hauthority]
  unfold effectivePort
  cases hport : u.port with
  | none =>
    show trimEndMatches _ (_ ++ []) = _ ++ []
    rw [List.append_nil, trimEndMatches_of_not_suffix huser]
  | some p =>
    by_cases hdefault : p = u.scheme.defaultPort
    · have hnone : (some p).filter (fun p => decide (p ≠ u.scheme.defaultPort)) = none :=
        Option.filter_some_neg (by rw [hdefault]; simp)
      rw [hnone, hdefault]
      show trimEndMatches (':' :: _) (_ ++ ':' :: _) = _ ++ []
      rw [trimEndMatches_append (List.cons_ne_nil _ _), trimEndMatches_of_not_suffix huser,
        List.append_nil]
    · have hsome : (some p).filter (fun p => decide (p ≠ u.scheme.defaultPort)) = some p :=
        Option.filter_some_pos (decide_eq_true hdefault)
      rw [hsome]
      refine trimEndMatches_of_not_suffix fun h => hdefault ?_
      exact port_suffix (u.port_digits p hport).2 (colon_not_mem_of_digits hdigits) h

/-! ## What the canonical form determines -/

/-- The port that is left is still one. -/
theorem effectivePort_digits (u : BaseUrl) :
    ∀ p ∈ u.effectivePort, p ≠ [] ∧ ∀ c ∈ p, c.isDigit = true := fun p hp =>
  u.port_digits p (Option.filter_eq_some_iff.mp hp).1

theorem not_mem_portText {o : Option Text}
    (h : ∀ p ∈ o, p ≠ [] ∧ ∀ c ∈ p, c.isDigit = true) {c : Char} (hcolon : c ≠ ':')
    (hc : c.isDigit = false) : c ∉ portText o := by
  cases o with
  | none => exact List.not_mem_nil
  | some p =>
    intro hmem
    obtain heq | hmem := List.mem_cons.mp hmem
    · exact hcolon heq
    · rw [(h p rfl).2 c hmem] at hc
      cases hc

/-- User and host hold no slash. -/
theorem slash_not_mem_userHost (u : BaseUrl) : '/' ∉ userText u.userinfo ++ u.host := by
  rw [List.mem_append]
  rintro (huser | hhost)
  · cases hu : u.userinfo with
    | none =>
      rw [hu] at huser
      cases huser
    | some v =>
      rw [hu] at huser
      obtain hmem | hat := List.mem_append.mp huser
      · exact u.userinfo_chars v hu '/' hmem List.mem_cons_self
      · exact absurd (List.mem_singleton.mp hat) (by decide)
  · exact (u.host_chars '/' hhost).1 List.mem_cons_self

/-- What is before the last occurrence of a separator, and after it. -/
theorem append_last_inj {sep : Char} {a a' b b' : Text} (hb : sep ∉ b) (hb' : sep ∉ b')
    (h : a ++ sep :: b = a' ++ sep :: b') : a = a' ∧ b = b' := by
  have hrev := congrArg List.reverse h
  rw [List.reverse_append, List.reverse_append, List.reverse_cons, List.reverse_cons,
    List.append_assoc, List.append_assoc, List.singleton_append, List.singleton_append] at hrev
  have hcount : b.reverse.count sep = b'.reverse.count sep := by
    rw [List.count_reverse, List.count_reverse, List.count_eq_zero_of_not_mem hb,
      List.count_eq_zero_of_not_mem hb']
  obtain ⟨hsecond, hfirst⟩ := Delimited.append_cons_inj hcount hrev
  exact ⟨List.reverse_injective hfirst, List.reverse_injective hsecond⟩

/-- An authority and the path after it. -/
theorem append_path_inj {a a' p p' : Text} (ha : '/' ∉ a) (ha' : '/' ∉ a')
    (hp : p = [] ∨ p.head? = some '/') (hp' : p' = [] ∨ p'.head? = some '/')
    (h : a ++ p = a' ++ p') : a = a' ∧ p = p' := by
  have htake : ∀ {a p : Text}, '/' ∉ a → p = [] ∨ p.head? = some '/' →
      (a ++ p).takeWhile (· ≠ '/') = a := by
    intro a p ha hp
    have hall : ∀ c ∈ a, decide (c ≠ '/') = true := fun c hc =>
      decide_eq_true fun heq => ha (heq ▸ hc)
    rw [List.takeWhile_append_of_pos hall]
    obtain rfl | hhead := hp
    · rw [List.takeWhile_nil, List.append_nil]
    · obtain ⟨t, rfl⟩ := List.head?_eq_some_iff.mp hhead
      rw [List.takeWhile_cons_of_neg (by decide), List.append_nil]
  have heq : a = a' := by rw [← htake ha hp, h, htake ha' hp']
  rw [heq] at h
  exact ⟨heq, List.append_cancel_left h⟩

/-- A host and the port after it. -/
theorem host_port_inj {u v : BaseUrl} (h : u.host.toAsciiLowercase ++ portText u.effectivePort =
    v.host.toAsciiLowercase ++ portText v.effectivePort) :
    u.host.toAsciiLowercase = v.host.toAsciiLowercase ∧ u.effectivePort = v.effectivePort := by
  have hdigits := effectivePort_digits
  cases hu : u.effectivePort with
  | none =>
    cases hv : v.effectivePort with
    | none =>
      rw [hu, hv] at h
      exact ⟨List.append_cancel_right h, rfl⟩
    | some q =>
      rw [hu, hv, portText, List.append_nil] at h
      obtain ⟨hne, hall⟩ := hdigits v q hv
      exact absurd ⟨_, h.symm⟩ (u.host_not_suffix hne hall)
  | some p =>
    obtain ⟨hne, hall⟩ := hdigits u p hu
    cases hv : v.effectivePort with
    | none =>
      rw [hu, hv, portText, List.append_nil] at h
      exact absurd ⟨_, h⟩ (v.host_not_suffix hne hall)
    | some q =>
      rw [hu, hv] at h
      obtain ⟨hhost, hport⟩ := append_last_inj (colon_not_mem_of_digits hall)
        (colon_not_mem_of_digits (hdigits v q hv).2) h
      exact ⟨hhost, congrArg some hport⟩

/-- What is after the user part holds no sign of one. -/
theorem at_not_mem (u : BaseUrl) :
    '@' ∉ u.host.toAsciiLowercase ++ portText u.effectivePort := by
  rw [List.mem_append, mem_toAsciiLowercase (by decide)]
  rintro (hhost | hport)
  · exact (u.host_chars '@' hhost).1 (by decide)
  · exact not_mem_portText u.effectivePort_digits (by decide) (by decide) hport

/-- User, host and port are told apart by the sign after a user and the colon before a port. -/
theorem authority_inj {u v : BaseUrl}
    (h : (userText u.userinfo ++ u.host).toAsciiLowercase ++ portText u.effectivePort =
      (userText v.userinfo ++ v.host).toAsciiLowercase ++ portText v.effectivePort) :
    (userText u.userinfo).toAsciiLowercase = (userText v.userinfo).toAsciiLowercase ∧
      u.host.toAsciiLowercase = v.host.toAsciiLowercase ∧ u.effectivePort = v.effectivePort := by
  have hsome : ∀ (w : BaseUrl) (t : Text), w.userinfo = some t →
      (userText w.userinfo ++ w.host).toAsciiLowercase ++ portText w.effectivePort =
        t.toAsciiLowercase ++
          '@' :: (w.host.toAsciiLowercase ++ portText w.effectivePort) := by
    intro w t ht
    rw [ht, userText, toAsciiLowercase_append, toAsciiLowercase_append]
    simp [toAsciiLowercase]
  have hnone : ∀ (w : BaseUrl), w.userinfo = none →
      (userText w.userinfo ++ w.host).toAsciiLowercase ++ portText w.effectivePort =
        w.host.toAsciiLowercase ++ portText w.effectivePort := by
    intro w hw
    rw [hw]
    rfl
  cases hu : u.userinfo with
  | none =>
    cases hv : v.userinfo with
    | none =>
      rw [hnone u hu, hnone v hv] at h
      exact ⟨rfl, host_port_inj h⟩
    | some t =>
      rw [hnone u hu, hsome v t hv] at h
      exact absurd (h ▸ List.mem_append_right _ List.mem_cons_self) u.at_not_mem
  | some s =>
    cases hv : v.userinfo with
    | none =>
      rw [hsome u s hu, hnone v hv] at h
      exact absurd (h ▸ List.mem_append_right _ List.mem_cons_self) v.at_not_mem
    | some t =>
      rw [hsome u s hu, hsome v t hv] at h
      obtain ⟨huser, hrest⟩ := append_last_inj u.at_not_mem v.at_not_mem h
      refine ⟨?_, host_port_inj hrest⟩
      show (s ++ ['@']).toAsciiLowercase = (t ++ ['@']).toAsciiLowercase
      rw [toAsciiLowercase_append, toAsciiLowercase_append, huser]

/-- An authority in canonical form holds no slash. -/
theorem slash_not_mem (u : BaseUrl) :
    '/' ∉ (userText u.userinfo ++ u.host).toAsciiLowercase ++ portText u.effectivePort := by
  rw [List.mem_append, mem_toAsciiLowercase (by decide)]
  rintro (huser | hport)
  · exact u.slash_not_mem_userHost huser
  · exact not_mem_portText u.effectivePort_digits (by decide) (by decide) hport

/-- **The canonical form is how a URL is spelled**: it determines the scheme and what spelling
alike asks for, and nothing else. -/
theorem canonical_eq_iff {u v : BaseUrl} :
    u.canonical = v.canonical ↔ u.scheme = v.scheme ∧ u.SpelledAlike v := by
  unfold canonical
  constructor
  · intro h
    -- the fifth character tells the schemes apart
    have hscheme : u.scheme = v.scheme := by
      have hfifth := congrArg (fun s : Text => s[4]?) h
      revert hfifth
      cases u.scheme <;> cases v.scheme <;> simp [HttpScheme.name]
    rw [hscheme] at h
    have hrest := List.append_cancel_left (List.append_cancel_left h)
    obtain ⟨hauthority, hpath⟩ := append_path_inj u.slash_not_mem v.slash_not_mem u.path_start
      v.path_start hrest
    obtain ⟨huser, hhost, hport⟩ := authority_inj hauthority
    exact ⟨hscheme, huser, hhost, hport, hpath⟩
  · rintro ⟨hscheme, halike⟩
    rw [toAsciiLowercase_append, toAsciiLowercase_append, hscheme, halike.user, halike.host,
      halike.port, halike.path]

/-- The number of a port is that of its text, if the text is kept, and the default else. -/
theorem portNumber_eq (u : BaseUrl) :
    u.portNumber = u.effectivePort.elim u.scheme.defaultNumber portValue := by
  unfold portNumber effectivePort
  cases u.port with
  | none => rfl
  | some p =>
    by_cases hdefault : p = u.scheme.defaultPort
    · have hnone : (some p).filter (fun p => decide (p ≠ u.scheme.defaultPort)) = none :=
        Option.filter_some_neg (by rw [hdefault]; simp)
      rw [hnone, hdefault]
      cases u.scheme <;> decide
    · have hsome : (some p).filter (fun p => decide (p ≠ u.scheme.defaultPort)) = some p :=
        Option.filter_some_pos (decide_eq_true hdefault)
      rw [hsome]

/-- **URLs of one scheme that are spelled alike denote the same**, for every reader. -/
theorem SpelledAlike.same (R : UrlReading) {u v : BaseUrl} (h : u.SpelledAlike v)
    (hscheme : u.scheme = v.scheme) : u.Same R v := by
  refine ⟨?_, congrArg R.path h.path⟩
  unfold origin
  rw [hscheme, R.ascii _ _ h.host, portNumber_eq, portNumber_eq, hscheme, h.port]

/-- URLs that denote the same have one scheme. -/
theorem Same.scheme_eq {R : UrlReading} {u v : BaseUrl} (h : u.Same R v) : u.scheme = v.scheme :=
  congrArg Prod.fst h.1

end BaseUrl

/-! ## Ways of writing it -/

/-- A URL as it is written: its parts, the scheme in any case, and whatever blanks and
closing slashes stand around it, which the code trims. -/
structure WrittenUrl extends BaseUrl where
  /-- The scheme, in any case. -/
  schemeText : Text
  schemeText_eq : schemeText.toAsciiLowercase = scheme.name
  before : Text
  after : Text
  before_blank : ∀ c ∈ before, isWhitespace c = true
  after_blank : ∀ c ∈ after, isWhitespace c = true
  /-- How many slashes are at the end. -/
  slashes : ℕ

namespace WrittenUrl

/-- The URL without what may be around it: no blanks before or after, and no slashes at the end. -/
def core (w : WrittenUrl) : Text :=
  w.schemeText ++ ("://".toList ++ (w.authority ++ w.path))

/-- The text that is written, with its blanks and its closing slashes. -/
def text (w : WrittenUrl) : Text := w.before ++ (w.core ++ List.replicate w.slashes '/') ++ w.after

theorem schemeText_colon (w : WrittenUrl) : ':' ∉ w.schemeText := by
  rw [← mem_toAsciiLowercase (by decide), w.schemeText_eq]
  cases w.scheme <;> decide

/-- What is left of the slashes at the end neither is one nor blank. -/
theorem core_last (w : WrittenUrl) : ∀ c ∈ w.core.getLast?, c ≠ '/' ∧ isWhitespace c = false := by
  have hauthority : ∀ c ∈ w.authority.getLast?, c ≠ '/' ∧ isWhitespace c = false := by
    unfold BaseUrl.authority
    cases hport : w.port with
    | none =>
      intro c hc
      rw [BaseUrl.portText, List.append_nil, List.getLast?_append_of_ne_nil _ w.host_ne] at hc
      obtain ⟨hchars, hblank⟩ := w.host_chars c (List.mem_of_getLast? hc)
      exact ⟨fun heq => hchars (heq ▸ List.mem_cons_self), hblank⟩
    | some p =>
      intro c hc
      obtain ⟨hne, hdigits⟩ := w.port_digits p hport
      rw [BaseUrl.portText, ← List.append_assoc, List.getLast?_append_cons,
        List.getLast?_cons_of_ne_nil hne] at hc
      have hdigit := hdigits c (List.mem_of_getLast? hc)
      have hblank : ∀ c : Char, c.toNat < 58 → c.isDigit = true →
          c ≠ '/' ∧ isWhitespace c = false :=
        forall_char_lt (by decide)
      have hle : c.val ≤ '9'.val := of_decide_eq_true (Bool.and_eq_true_iff.mp hdigit).2
      have hlt : c.toNat < 58 := Nat.lt_succ_of_le (UInt32.le_iff_toNat_le.mp hle)
      exact hblank c hlt hdigit
  have hne : w.authority ++ w.path ≠ [] := by
    have hhost := w.host_ne
    unfold BaseUrl.authority
    simp [hhost]
  unfold core
  intro c hc
  rw [← List.append_assoc, List.getLast?_append_of_ne_nil _ hne] at hc
  by_cases hpath : w.path = []
  · rw [hpath, List.append_nil] at hc
    exact hauthority c hc
  · rw [List.getLast?_append_of_ne_nil _ hpath] at hc
    exact w.path_end c hc

/-- Trimming leaves the URL. -/
theorem trim_text (w : WrittenUrl) : trimEndMatches "/".toList w.text.trim = w.core := by
  have hscheme : w.schemeText ≠ [] := by
    intro hnil
    have hname := w.schemeText_eq
    rw [hnil] at hname
    revert hname
    cases w.scheme <;> decide
  have hcore : w.core ≠ [] := List.append_ne_nil_of_left_ne_nil hscheme _
  have htrim : w.text.trim = w.core ++ List.replicate w.slashes '/' := by
    refine trim_surrounded (List.append_ne_nil_of_left_ne_nil hcore _) w.before_blank
      w.after_blank (fun c hc => ?_) fun c hc => ?_
    · -- the scheme starts it
      obtain ⟨d, t, hd⟩ := List.exists_cons_of_ne_nil hscheme
      have hhead : c = d := by
        unfold core at hc
        rw [hd] at hc
        exact (Option.some.inj hc).symm
      have hname := w.schemeText_eq
      rw [hd] at hname
      have hletter : d.toLower = 'h' := by
        have hfirst := congrArg List.head? hname
        revert hfirst
        cases w.scheme <;> exact fun hfirst => Option.some.inj hfirst
      rw [hhead, ← isWhitespace_toLower, hletter]
      decide
    · cases hn : w.slashes with
      | zero =>
        rw [hn, List.replicate_zero, List.append_nil] at hc
        exact (w.core_last c hc).2
      | succ n =>
        rw [hn, List.replicate_succ', ← List.append_assoc, List.getLast?_concat] at hc
        rw [← Option.some.inj hc]
        decide
  rw [htrim]
  refine (trimEndMatches_replicate '/' _ _).trans (trimEndMatches_of_not_suffix fun h => ?_)
  exact (w.core_last '/' (singleton_suffix_iff.mp h)).1 rfl

theorem authority_no_slash (w : WrittenUrl) : '/' ∉ w.authority := by
  unfold BaseUrl.authority
  rw [← List.append_assoc, List.mem_append]
  rintro (huser | hport)
  · exact w.slash_not_mem_userHost huser
  · exact BaseUrl.not_mem_portText w.port_digits (by decide) (by decide) hport

/-- **The audience of a signature is the URL's canonical form**, however it is written. -/
theorem canonicalAudience_text (w : WrittenUrl) :
    canonicalAudience w.text = w.canonical := by
  have hscheme : splitOnce "://".toList w.core = some (w.schemeText, w.authority ++ w.path) :=
    splitOnce_append w.schemeText_colon (w.authority ++ w.path)
  have hauthority : (if w.scheme.name = "https".toList then
        trimEndMatches ":443".toList w.authority.toAsciiLowercase
      else if w.scheme.name = "http".toList then
        trimEndMatches ":80".toList w.authority.toAsciiLowercase
      else w.authority.toAsciiLowercase) =
      (BaseUrl.userText w.userinfo ++ w.host).toAsciiLowercase ++
        BaseUrl.portText w.effectivePort := by
    rw [← w.trim_authority]
    cases w.scheme <;> rfl
  unfold canonicalAudience BaseUrl.canonical
  dsimp only
  rw [w.trim_text, hscheme]
  dsimp only
  rw [w.schemeText_eq]
  obtain hnil | hslash := w.path_start
  · have hnone : splitOnce "/".toList (w.authority ++ w.path) = none := by
      rw [hnil, List.append_nil]
      exact splitOnce_eq_none w.authority_no_slash
    rw [hnone]
    dsimp only
    rw [hnil, List.append_nil, hauthority]
    simp
  · obtain ⟨t, ht⟩ := List.head?_eq_some_iff.mp hslash
    have hsome : splitOnce "/".toList (w.authority ++ w.path) = some (w.authority, t) := by
      rw [ht]
      exact splitOnce_append w.authority_no_slash t
    rw [hsome]
    dsimp only
    rw [hauthority, ht]
    simp

end WrittenUrl

end Atlas
