import Mathlib.Algebra.Order.Field.Basic
import Mathlib.Algebra.Order.Ring.Rat
import Mathlib.Tactic.Linarith
import Mathlib.Tactic.NormNum
import Mathlib.Tactic.Positivity
import Mathlib.Tactic.Ring
import Atlas.Planner
import Atlas.Ranking

/-!
# How a plan ranks its sources

A source is scored by the tier that the preference of the user gives to its class, by its
class and by its health, and a plan has the highest score first. A tier is worth 200 points,
which is more than all that successes, latency and class can add up to; but every integrity
failure costs 50 points, and nobody bounds their number.

`plan_ranks_by_tier_iff` says what holds of every plan, and exactly when the preference
decides. Scores are taken to be exact numbers here.
-/

namespace Atlas

open Text

/-! ## Scores -/

/-- Class-tier offset applied per preference, which outweighs everything that speaks for a
source, though not its failures. -/
def TIER_OFFSET : ℚ := 200

/-- The priority of a class, before anything is known of the source. -/
def classPriority : SourceClass → ℚ
  | .localFile => 120
  | .lanPeer => 100
  | .iroh => 90
  | .bittorrentV2 => 80
  | .httpsMirror => 55
  | .huggingface => 45

/-- The preference's class tier (higher = more preferred); a preference without an opinion
gives every class the same. -/
def preferenceTier : DownloadPreference → SourceClass → ℤ
  | .auto, _ => 0
  | .preferP2p, .iroh | .preferP2p, .bittorrentV2 => 1
  | .preferP2p, .huggingface | .preferP2p, .httpsMirror => -1
  | .preferP2p, _ => 0
  | .preferBittorrent, .bittorrentV2 => 2
  | .preferBittorrent, .iroh => 1
  | .preferBittorrent, .huggingface | .preferBittorrent, .httpsMirror => -1
  | .preferBittorrent, _ => 0
  | .saveData, .httpsMirror | .saveData, .huggingface => 1
  | .saveData, .iroh | .saveData, .bittorrentV2 => -1
  | .saveData, _ => 0

/-- The share of fetches that succeeded; neutral for an unseen source. -/
def successRatio (h : SourceHealth) : ℚ :=
  if 0 < h.successCount + h.failureCount then h.successCount / (h.successCount + h.failureCount)
  else 1 / 2

/-- The points for the last latency, if it is known: the full ten at no latency, falling to
none at two seconds. -/
def latencyPoints : Option ℤ → ℚ
  | none => 0
  | some ms => (1 - (max 0 (min ms 2000) : ℤ) / 2000) * 10

/-- A small bonus for a source with many peers, which Iroh sources alone get. -/
def peerBonus (bonus : ℕ → ℚ) (sourceClass : SourceClass) : Option ℕ → ℚ
  | none => 0
  | some n => if sourceClass = .iroh then bonus n else 0

section Scoring

/-! The last latency is a field of the health record that nothing else here reads, and the
bonus for peers is a logarithm; both are parameters. -/

variable (latency : SourceHealth → Option ℤ) (bonus : ℕ → ℚ)

/-- Compute a source's score: its tier and priority, what its record adds or takes, and what
the platform makes of its class. -/
def scoreSource (sourceClass : SourceClass) (h : SourceHealth) (profile : PlatformProfile)
    (preference : DownloadPreference) (peers : Option ℕ) : ℚ :=
  let score := preferenceTier preference sourceClass * TIER_OFFSET
  let score := score + classPriority sourceClass
  let score := score + successRatio h * 30
  let score := score - h.integrityFailures * 50
  let score := score + latencyPoints (latency h)
  let score := if sourceClass = .iroh then score + 5 else score
  let score :=
    if (profile.metered || profile.batterySaver) && sourceClass = .iroh then score - 25 else score
  score + peerBonus bonus sourceClass peers

/-- The points of a source for its class, its successes and its latency. -/
def merit (profile : PlatformProfile) (sourceClass : SourceClass) (h : SourceHealth) : ℚ :=
  classPriority sourceClass + successRatio h * 30 + latencyPoints (latency h) +
    (if sourceClass = .iroh then 5 else 0) -
    if (profile.metered || profile.batterySaver) && sourceClass = .iroh then 25 else 0

/-- **What a score is made of**, where nothing is known of peers. -/
theorem scoreSource_eq (sourceClass : SourceClass) (h : SourceHealth)
    (profile : PlatformProfile) (preference : DownloadPreference) :
    scoreSource latency bonus sourceClass h profile preference none =
      preferenceTier preference sourceClass * TIER_OFFSET + merit latency profile sourceClass h -
        h.integrityFailures * 50 := by
  unfold scoreSource merit peerBonus
  dsimp only
  split
  · split <;> ring
  · split <;> ring

end Scoring

/-! ## Plans -/

/-- What a plan is made from: the manifest, the artifact, the settings, the records of the
sources, and the clock. -/
structure PlanInput where
  manifest : Manifest
  artifact : Artifact
  profile : PlatformProfile
  preference : DownloadPreference
  health : Text → SourceHealth
  now : ℕ
  /-- The BitTorrent adapter was built in. -/
  bittorrent : Bool
  latency : SourceHealth → Option ℤ
  bonus : ℕ → ℚ

namespace PlanInput

variable (x : PlanInput)

/-- The plan, where nothing is known of peers, ordered by exact scores. -/
def plan : Plan ℚ :=
  planArtifactWith 0 (scoreSource x.latency x.bonus) (fun a b => decide (b ≤ a)) x.bittorrent
    x.manifest x.artifact x.profile x.preference none x.health x.now

/-- A source is allowed, and not under an active ban, under the settings of the profile and
at the time of the plan. -/
def Passes (source : Source) : Prop :=
  (sourceFetchAllowed x.bittorrent x.manifest source x.profile).1 = true ∧
    banActive x.now (x.health source.sourceId) = false

instance (source : Source) : Decidable (x.Passes source) := inferInstanceAs (Decidable (_ ∧ _))

/-- The tier of a source, which is what the user prefers, before scores are looked at; a
higher tier is preferred. -/
def tier (source : Source) : ℤ := preferenceTier x.preference source.sourceClass

/-- The score that a source is ranked by; how many peers it has is not known to the planner. -/
def scoreOf (source : Source) : ℚ :=
  scoreSource x.latency x.bonus source.sourceClass (x.health source.sourceId) x.profile
    x.preference none

/-- By how much the integrity failures that one source has more than another outweigh what
else speaks for it. -/
def deficit (source other : Source) : ℚ :=
  50 * ((x.health source.sourceId).integrityFailures -
      (x.health other.sourceId).integrityFailures : ℚ) -
    (merit x.latency x.profile source.sourceClass (x.health source.sourceId) -
      merit x.latency x.profile other.sourceClass (x.health other.sourceId))

/-- **A plan is sound**: every source is in one of its two lists, and for a reason; what is
eligible is sorted by score, and sources of one score are in the order of the manifest. -/
structure Sound : Prop where
  partition : (x.plan.eligible.map ScoredSource.source ++
    x.plan.excluded.map ScoredSource.source).Perm x.artifact.sources
  eligible : ∀ s ∈ x.plan.eligible, x.Passes s.source
  excluded : ∀ s ∈ x.plan.excluded, ¬ x.Passes s.source
  scored : ∀ s ∈ x.plan.eligible, s.score = x.scoreOf s.source
  sorted : x.plan.eligible.Pairwise fun a b => b.score ≤ a.score
  ties : ∀ score, (x.plan.eligible.filter fun s => s.score = score).map ScoredSource.source =
    x.artifact.sources.filter fun source => x.Passes source ∧ x.scoreOf source = score

/-- **The tier decides**: of two eligible sources the one of the higher tier is first. -/
def RanksByTier : Prop :=
  x.plan.eligible.Pairwise fun a b => x.tier b.source ≤ x.tier a.source

/-- **The tiers outweigh the failures.** Of any two sources that pass, the deficit of the one
in the higher tier is at most 200 points for each tier between them, and less if it comes
second in the manifest. -/
def TiersOutweigh : Prop :=
  (x.artifact.sources.filter fun source => x.Passes source).Pairwise fun a b =>
    (x.tier b < x.tier a → x.deficit a b ≤ 200 * (x.tier a - x.tier b : ℚ)) ∧
      (x.tier a < x.tier b → x.deficit b a < 200 * (x.tier b - x.tier a : ℚ))

/-- The verdict on a source, as the plan gives it before it is sorted. -/
def verdict : Source → ScoredSource ℚ :=
  planSource 0 (scoreSource x.latency x.bonus) x.bittorrent x.manifest x.profile x.preference
    none x.health x.now

theorem verdict_spec (source : Source) :
    (x.verdict source).source = source ∧
      ((x.verdict source).eligible = true ↔ x.Passes source) ∧
        (x.Passes source → (x.verdict source).score = x.scoreOf source) := by
  unfold verdict planSource Passes scoreOf
  dsimp only
  cases hallowed : (sourceFetchAllowed x.bittorrent x.manifest source x.profile).1 with
  | false => exact ⟨rfl, iff_of_false Bool.false_ne_true fun h => Bool.false_ne_true h.1,
      fun h => absurd h.1 Bool.false_ne_true⟩
  | true =>
    cases hban : banActive x.now (x.health source.sourceId) with
    | true => exact ⟨rfl, iff_of_false Bool.false_ne_true fun h => Bool.false_ne_true h.2.symm,
        fun h => absurd h.2.symm Bool.false_ne_true⟩
    | false => exact ⟨rfl, iff_of_true rfl ⟨rfl, rfl⟩, fun _ => rfl⟩

theorem eligible_eq : x.plan.eligible = Ranking.ranked ScoredSource.score
    ((x.artifact.sources.filter fun source => x.Passes source).map x.verdict) := by
  have hfilter : (x.artifact.sources.map x.verdict).filter ScoredSource.eligible =
      (x.artifact.sources.filter fun source => x.Passes source).map x.verdict := by
    rw [List.filter_map]
    refine congrArg (List.map x.verdict) (List.filter_congr fun source _ => ?_)
    show (x.verdict source).eligible = decide (x.Passes source)
    rw [Bool.eq_iff_iff, (x.verdict_spec source).2.1, decide_eq_true_iff]
  rw [← hfilter]
  rfl

theorem excluded_eq : x.plan.excluded =
    (x.artifact.sources.filter fun source => ¬ x.Passes source).map x.verdict := by
  show (x.artifact.sources.map x.verdict).filter (fun s => !s.eligible) = _
  rw [List.filter_map]
  refine congrArg (List.map x.verdict) (List.filter_congr fun source _ => ?_)
  show (!(x.verdict source).eligible) = decide (¬ x.Passes source)
  rw [Bool.eq_iff_iff, Bool.not_eq_true', decide_eq_true_iff, ← (x.verdict_spec source).2.1,
    Bool.not_eq_true]

/-- The sources of verdicts. -/
theorem map_source_verdict (sources : List Source) :
    (sources.map x.verdict).map ScoredSource.source = sources := by
  rw [List.map_map]
  exact (List.map_congr_left fun source _ => (x.verdict_spec source).1).trans (List.map_id _)

/-- **Every plan is sound.** -/
theorem sound : x.Sound := by
  have hscored : ∀ s ∈ x.plan.eligible, x.Passes s.source ∧ s.score = x.scoreOf s.source := by
    intro s hs
    rw [eligible_eq] at hs
    obtain ⟨source, hsource, rfl⟩ := List.mem_map.mp (Ranking.perm_ranked.subset hs)
    have hpasses : x.Passes source := of_decide_eq_true (List.mem_filter.mp hsource).2
    rw [(x.verdict_spec source).1]
    exact ⟨hpasses, (x.verdict_spec source).2.2 hpasses⟩
  refine ⟨?_, fun s hs => (hscored s hs).1, fun s hs => ?_, fun s hs => (hscored s hs).2, ?_, ?_⟩
  · rw [eligible_eq, excluded_eq, map_source_verdict]
    have hperm : (Ranking.ranked ScoredSource.score
        ((x.artifact.sources.filter fun source => x.Passes source).map x.verdict)).Perm _ :=
      Ranking.perm_ranked
    have hsources := hperm.map ScoredSource.source
    rw [map_source_verdict] at hsources
    refine (hsources.append_right _).trans ?_
    have hsplit := List.filter_append_perm (fun source => decide (x.Passes source))
      x.artifact.sources
    simpa using hsplit
  · rw [excluded_eq] at hs
    obtain ⟨source, hsource, rfl⟩ := List.mem_map.mp hs
    rw [(x.verdict_spec source).1]
    exact of_decide_eq_true (List.mem_filter.mp hsource).2
  · rw [eligible_eq]
    exact Ranking.pairwise_ranked
  · intro score
    rw [eligible_eq, Ranking.ranked_filter, List.filter_map, map_source_verdict,
      List.filter_filter]
    refine List.filter_congr fun source _ => ?_
    show (decide ((x.verdict source).score = score) && decide (x.Passes source)) = _
    rw [Bool.eq_iff_iff, Bool.and_eq_true, decide_eq_true_iff, decide_eq_true_iff,
      decide_eq_true_iff]
    constructor
    · rintro ⟨hscore, hpasses⟩
      rw [(x.verdict_spec source).2.2 hpasses] at hscore
      exact ⟨hpasses, hscore⟩
    · rintro ⟨hpasses, hscore⟩
      rw [(x.verdict_spec source).2.2 hpasses]
      exact ⟨hscore, hpasses⟩

/-- Which of two scores is larger is a matter of tiers and deficits. -/
theorem scoreOf_le_iff (a b : Source) :
    (x.scoreOf b ≤ x.scoreOf a ↔ x.deficit a b ≤ 200 * (x.tier a - x.tier b : ℚ)) ∧
      (x.scoreOf b < x.scoreOf a ↔ x.deficit a b < 200 * (x.tier a - x.tier b : ℚ)) := by
  have hdifference : x.scoreOf a - x.scoreOf b =
      200 * (x.tier a - x.tier b : ℚ) - x.deficit a b := by
    unfold scoreOf deficit tier
    rw [scoreSource_eq, scoreSource_eq]
    unfold TIER_OFFSET
    ring
  constructor
  · constructor <;> intro h <;> linarith
  · constructor <;> intro h <;> linarith

end PlanInput

/-- **What every plan does, and when the preference decides.** For every manifest, artifact,
policy, platform, health table and preference: the sources are divided, allowed and banned
as they should be, and sorted with ties in manifest order; and eligible sources of a higher
tier are first exactly if the tiers outweigh the failures. -/
theorem plan_ranks_by_tier_iff (x : PlanInput) :
    x.Sound ∧ (x.RanksByTier ↔ x.TiersOutweigh) := by
  refine ⟨x.sound, ?_⟩
  unfold PlanInput.RanksByTier PlanInput.TiersOutweigh
  rw [x.eligible_eq]
  refine Ranking.ranked_pairwise_iff.trans ?_
  rw [List.pairwise_map]
  refine List.Pairwise.iff_of_mem fun {a b} ha hb => ?_
  have hpasses {source : Source}
      (h : source ∈ x.artifact.sources.filter fun source => x.Passes source) :
      (x.verdict source).score = x.scoreOf source :=
    (x.verdict_spec source).2.2 (of_decide_eq_true (List.mem_filter.mp h).2)
  rw [hpasses ha, hpasses hb, (x.verdict_spec a).1, (x.verdict_spec b).1]
  exact and_congr (imp_congr_right fun _ => (x.scoreOf_le_iff a b).1)
    (imp_congr_right fun _ => (x.scoreOf_le_iff b a).2)

/-- A torrent and a peer source of one file, which the two classes of sources of the example
are about. -/
def rankedArtifact : Artifact where
  path := "model.gguf".toList
  sizeBytes := 3
  hashes := ⟨List.replicate 64 'a', List.replicate 64 'c', []⟩
  chunking := none
  sources := [.bittorrentV2 "magnet:?xt=urn:btih:abc".toList none .none,
    .iroh (List.replicate 64 'a') ["ticket".toList] .none]

/-- BitTorrent is preferred, but the torrent delivered wrong bytes four times; its last ban
is over. -/
def fourFailures : PlanInput where
  manifest := ⟨SCHEMA_VERSION, "mdl_ranked".toList, "local".toList, ⟨false, false, []⟩,
    [rankedArtifact]⟩
  artifact := rankedArtifact
  profile := .desktop
  preference := .preferBittorrent
  health := fun id =>
    if id = "btv2:magnet:?xt=urn:btih:abc".toList then ⟨id, 0, 0, 4, true, some 0⟩
    else ⟨id, 0, 0, 0, false, none⟩
  now := 7 * 3600
  bittorrent := true
  latency := fun _ => none
  bonus := fun _ => 0

/-- **Four integrity failures outweigh a tier.** The torrent is ranked below the peers. -/
theorem torrent_ranked_below :
    fourFailures.manifest.validate.toBool = true ∧
      fourFailures.plan.eligible.map (fun s => (s.source.sourceClass, s.score)) =
        [(.iroh, 310), (.bittorrentV2, 295)] ∧
      ¬ fourFailures.RanksByTier := by
  have hlist : fourFailures.plan.eligible.map (fun s => (s.source.sourceClass, s.score)) =
      [(.iroh, 310), (.bittorrentV2, 295)] := by
    decide +kernel
  refine ⟨by decide +kernel, hlist, fun h => ?_⟩
  have htiers : (fourFailures.plan.eligible.map fun s => fourFailures.tier s.source).Pairwise
      fun a b => b ≤ a := List.pairwise_map.mpr h
  exact absurd htiers (by decide +kernel)

/-! ## What is left to the preference -/

/-- The least that can speak for a source of a class: its class's priority, and for a peer
what an unknown provider count may take away. -/
def leastMerit (sourceClass : SourceClass) : ℚ :=
  if sourceClass = .iroh then classPriority sourceClass - 20 else classPriority sourceClass

/-- The most that can speak for a source of a class, which is more for Iroh than for the others. -/
def mostMerit (sourceClass : SourceClass) : ℚ :=
  if sourceClass = .iroh then classPriority sourceClass + 45 else classPriority sourceClass + 40

theorem successRatio_bounds (h : SourceHealth) : 0 ≤ successRatio h ∧ successRatio h ≤ 1 := by
  unfold successRatio
  split
  · rename_i hpos
    have hsum : (0 : ℚ) < h.successCount + h.failureCount := by exact_mod_cast hpos
    refine ⟨by positivity, (div_le_one hsum).mpr ?_⟩
    have hnonneg : (0 : ℚ) ≤ h.failureCount := by positivity
    linarith
  · norm_num

theorem latencyPoints_bounds (latency : Option ℤ) :
    0 ≤ latencyPoints latency ∧ latencyPoints latency ≤ 10 := by
  cases latency with
  | none => norm_num [latencyPoints]
  | some ms =>
    have hle : ((max 0 (min ms 2000) : ℤ) : ℚ) ≤ 2000 := by
      have hint : max 0 (min ms 2000) ≤ 2000 := by omega
      exact_mod_cast hint
    have hnonneg : (0 : ℚ) ≤ ((max 0 (min ms 2000) : ℤ) : ℚ) := by
      have hint : 0 ≤ max 0 (min ms 2000) := by omega
      exact_mod_cast hint
    unfold latencyPoints
    constructor <;> linarith

theorem merit_bounds (latency : SourceHealth → Option ℤ) (profile : PlatformProfile)
    (sourceClass : SourceClass) (h : SourceHealth) :
    leastMerit sourceClass ≤ merit latency profile sourceClass h ∧
      merit latency profile sourceClass h ≤ mostMerit sourceClass := by
  obtain ⟨hratio, hratio'⟩ := successRatio_bounds h
  obtain ⟨hlatency, hlatency'⟩ := latencyPoints_bounds (latency h)
  unfold leastMerit mostMerit merit
  by_cases hiroh : sourceClass = .iroh
  · simp only [hiroh, if_true, decide_true, Bool.and_true]
    split <;> constructor <;> linarith
  · simp only [hiroh, if_false, decide_false, Bool.and_false, Bool.false_eq_true]
    constructor <;> linarith

/-- A tier is worth more than everything but failures. -/
theorem mostMerit_lt {preference : DownloadPreference} {a b : SourceClass}
    (h : preferenceTier preference b < preferenceTier preference a) :
    mostMerit b - leastMerit a <
      200 * (preferenceTier preference a - preferenceTier preference b : ℚ) := by
  revert h
  cases preference <;> cases a <;> cases b <;> decide +kernel

/-- **The preference decides among sources that did not fail more often**: if no source that
passes has more integrity failures than one of a lower tier, the tiers outweigh them. -/
theorem PlanInput.ranksByTier_of_failures_le (x : PlanInput)
    (h : ∀ a ∈ x.artifact.sources, ∀ b ∈ x.artifact.sources, x.Passes a → x.Passes b →
      x.tier b < x.tier a →
        (x.health a.sourceId).integrityFailures ≤ (x.health b.sourceId).integrityFailures) :
    x.TiersOutweigh := by
  have hdeficit {a b : Source} (ha : a ∈ x.artifact.sources.filter fun s => x.Passes s)
      (hb : b ∈ x.artifact.sources.filter fun s => x.Passes s) (htier : x.tier b < x.tier a) :
      x.deficit a b < 200 * (x.tier a - x.tier b : ℚ) := by
    obtain ⟨hamem, hapasses⟩ := List.mem_filter.mp ha
    obtain ⟨hbmem, hbpasses⟩ := List.mem_filter.mp hb
    have hfailures : ((x.health a.sourceId).integrityFailures : ℚ) ≤
        (x.health b.sourceId).integrityFailures := by
      exact_mod_cast h a hamem b hbmem (of_decide_eq_true hapasses) (of_decide_eq_true hbpasses)
        htier
    have hmost := (merit_bounds x.latency x.profile b.sourceClass (x.health b.sourceId)).2
    have hleast := (merit_bounds x.latency x.profile a.sourceClass (x.health a.sourceId)).1
    have hgap : mostMerit b.sourceClass - leastMerit a.sourceClass <
        200 * (x.tier a - x.tier b : ℚ) := mostMerit_lt htier
    unfold PlanInput.deficit
    linarith
  exact List.pairwise_of_forall_mem_list fun a ha b hb =>
    ⟨fun htier => (hdeficit ha hb htier).le, fun htier => hdeficit hb ha htier⟩

end Atlas
