import InferenceGateway.Grouping.Basic
import InferenceGateway.Router.Router

/-! The tiers of an alias without a fallback chain. The default order is grouped by comparing
each priority with the one before it, and both the priorities and the weights are read back
by name. -/
namespace Gateway.Router
open Gateway.Config (ProviderConfig)
open Gateway.Retry (Candidate Tier)
open Grouping (Grouped)

/-- The alias has a model for the provider. -/
def mapped (models : List (String × String)) (p : ProviderConfig) : Bool := (models.lookup p.name).isSome

/-- Tiers that divide the declared providers of an alias by their priorities. -/
structure Partition (providers : List ProviderConfig) (models : List (String × String))
    (priorities : List Int) (tiers : List Tier) : Prop where
  ascending : priorities.Pairwise (· < ·)
  uniform : List.Forall₂ (fun priority tier => ∀ c ∈ tier.candidates, ∃ p ∈ providers,
    p.name = c.providerName ∧ p.priority.toInt = priority) priorities tiers
  once : ∀ p ∈ providers, ∀ model, models.lookup p.name = some model →
    (tiers.flatMap Tier.candidates).countP (·.providerName = p.name) = 1 ∧
      ∃ t ∈ tiers, ⟨p.name, model, p.weight⟩ ∈ t.candidates
  ordered : ∀ t ∈ tiers, (t.candidates.map Candidate.providerName).Sublist (providers.map ProviderConfig.name)

variable {r : Router} {models : List (String × String)} {g : TierLoop} {p : ProviderConfig}
  {name model : String}

theorem group_none (absent : models.lookup name = none) : r.group models g name = g := by
  unfold group
  rw [absent]

theorem group_join (found : models.lookup name = some model)
    (same : g.haveTier ∧ read r.providerPriority name = g.lastPriority) :
    r.group models g name =
      { g with tiers := g.tiers.modifyLast fun t => ⟨t.candidates ++ [r.offered name model]⟩ } := by
  unfold group
  simp only [found]
  exact if_pos same

theorem group_open (found : models.lookup name = some model)
    (other : ¬ (g.haveTier ∧ read r.providerPriority name = g.lastPriority)) :
    r.group models g name =
      { tiers := g.tiers ++ [⟨[r.offered name model]⟩]
        lastPriority := read r.providerPriority name, haveTier := true } := by
  unfold group
  simp only [found]
  exact if_neg other

section Names

/-- A tier is open where the loop says so. -/
def TierLoop.Open (g : TierLoop) : Prop := g.haveTier = true → g.tiers ≠ []

def TierLoop.names (g : TierLoop) : List String := (g.tiers.flatMap Tier.candidates).map Candidate.providerName

theorem names_group (started : g.Open) (r : Router) (models : List (String × String)) (name : String) :
    (r.group models g name).Open ∧ (r.group models g name).names =
      g.names ++ if (models.lookup name).isSome then [name] else [] := by
  cases found : models.lookup name with
  | none =>
      rw [group_none found]
      exact ⟨started, (List.append_nil _).symm⟩
  | some model =>
      by_cases same : g.haveTier ∧ read r.providerPriority name = g.lastPriority
      · obtain ⟨init, t, whole⟩ := (List.eq_nil_or_concat' g.tiers).resolve_left (started same.1)
        rw [group_join found same]
        simp only [TierLoop.Open, TierLoop.names, whole, List.modifyLast_concat]
        simp [offered]
      · rw [group_open found same]
        simp only [TierLoop.Open, TierLoop.names]
        simp [offered]

theorem names_foldl (started : g.Open) (r : Router) (models : List (String × String)) (names : List String) :
    (names.foldl (r.group models) g).names =
      g.names ++ names.filter fun name => (models.lookup name).isSome := by
  induction names generalizing g with
  | nil => exact (List.append_nil _).symm
  | cons name names ih =>
      obtain ⟨later, next⟩ := names_group started r models name
      rw [List.foldl_cons, ih later, next, List.append_assoc, List.filter_cons]
      split <;> rfl

/-- Every declaration the alias maps is a candidate once, under its name. -/
theorem names_priorityTiers (cfg : Config) (models : List (String × String)) :
    (((new cfg).priorityTiers models).flatMap Tier.candidates).map Candidate.providerName =
      ((sorted cfg.providers).filter (mapped models)).map ProviderConfig.name := by
  have all := names_foldl (g := {}) (by intro h; cases h) (new cfg) models (new cfg).providerOrder
  rw [TierLoop.names] at all
  refine all.trans ?_
  simp only [TierLoop.names, List.flatMap_nil, List.map_nil, List.nil_append, new, List.filter_map]
  rfl

theorem names_perm (cfg : Config) (models : List (String × String)) :
    ((((new cfg).priorityTiers models).flatMap Tier.candidates).map Candidate.providerName).Perm
      ((cfg.providers.filter (mapped models)).map ProviderConfig.name) := by
  rw [names_priorityTiers]
  exact ((List.perm_insertionSort _ _).filter _).map _

theorem countP_priorityTiers (cfg : Config) (models : List (String × String)) (name : String) :
    (((new cfg).priorityTiers models).flatMap Tier.candidates).countP (·.providerName = name) =
      ((cfg.providers.filter (mapped models)).map ProviderConfig.name).count name := by
  rw [← (names_perm cfg models).count_eq, List.count_eq_countP, List.countP_map]
  apply List.countP_congr
  intro c _
  simp

end Names

section Groups

/-- The candidate of a declaration: its own weight, and the alias's model for it. -/
def candidate (models : List (String × String)) (p : ProviderConfig) : Candidate :=
  ⟨p.name, (models.lookup p.name).getD "", p.weight⟩

/-- The loop has grouped the declarations it has seen. -/
structure Follows (models : List (String × String)) (g : TierLoop) (seen : List ProviderConfig)
    (groups : List (Int × List ProviderConfig)) : Prop where
  grouped : Grouped (·.priority.toInt) seen groups
  tiers : g.tiers = groups.map fun group => ⟨group.2.map (candidate models)⟩
  started : g.haveTier = true ↔ groups ≠ []
  last : ∀ group, groups.getLast? = some group → g.lastPriority.toInt = group.1

theorem follows_start (models : List (String × String)) : Follows models {} [] [] where
  grouped := .nil
  tiers := rfl
  started := by simp
  last := by simp

variable {seen : List ProviderConfig} {groups : List (Int × List ProviderConfig)}

/-- No declaration seen so far has the priority of one that opens a tier. -/
theorem Follows.above (h : Follows models g seen groups)
    (ordered : ∀ q ∈ seen, q.priority.toInt ≤ p.priority.toInt)
    (other : ¬ (g.haveTier = true ∧ p.priority = g.lastPriority)) :
    ∀ q ∈ seen, q.priority.toInt < p.priority.toInt := by
  intro q member
  refine lt_of_le_of_ne (ordered q member) ?_
  intro same
  have key := h.grouped.covered q member
  rcases List.eq_nil_or_concat' groups with rfl | ⟨init, last, rfl⟩
  · simp at key
  · have priority := h.last last (by simp)
    have started := h.started.mpr (by simp)
    obtain ⟨y, among, top⟩ := h.grouped.key_mem (List.mem_append_right init (List.mem_singleton_self last))
    have ascending := h.grouped.ascending
    rw [List.map_append, List.pairwise_append] at ascending
    rw [List.map_append, List.mem_append] at key
    have below : q.priority.toInt ≤ last.1 := by
      rcases key with earlier | latest
      · exact (ascending.2.2 _ earlier last.1 (List.mem_singleton_self _)).le
      · exact (List.mem_singleton.mp latest).le
    have most := ordered y among
    refine other ⟨started, Int64.toInt_inj.mp ?_⟩
    omega

/-- One turn for a declaration whose priority and weight are read back as declared. -/
theorem Follows.group (h : Follows models g seen groups) (found : mapped models p = true)
    (priority : read r.providerPriority p.name = p.priority) (weight : read r.providerWeight p.name = p.weight)
    (ordered : ∀ q ∈ seen, q.priority.toInt ≤ p.priority.toInt) :
    ∃ groups', Follows models (r.group models g p.name) (seen ++ [p]) groups' := by
  obtain ⟨model, entry⟩ := Option.isSome_iff_exists.mp found
  have cand : r.offered p.name model = candidate models p := by
    simp [offered, candidate, weight, entry]
  by_cases same : g.haveTier ∧ read r.providerPriority p.name = g.lastPriority
  · rw [group_join entry same, cand]
    obtain ⟨init, ⟨k, ps⟩, rfl⟩ := (List.eq_nil_or_concat' groups).resolve_left (h.started.mp same.1)
    have key : k = p.priority.toInt := by
      rw [← priority, same.2, h.last (k, ps) (by simp)]
    subst key
    refine ⟨init ++ [(p.priority.toInt, ps ++ [p])], h.grouped.joins, ?_, ?_, ?_⟩
    · simp only [h.tiers, List.map_append, List.map_singleton, List.modifyLast_concat]
    · exact iff_of_true same.1 (by simp)
    · intro group top
      have latest : (p.priority.toInt, ps ++ [p]) = group := by simpa using top
      rw [← latest]
      exact h.last (p.priority.toInt, ps) (by simp)
  · rw [group_open entry same, cand, priority]
    rw [priority] at same
    refine ⟨groups ++ [(p.priority.toInt, [p])], h.grouped.opens (h.above ordered same), ?_, ?_, ?_⟩
    · simp [h.tiers]
    · simp
    · intro group top
      have latest : (p.priority.toInt, [p]) = group := by simpa using top
      rw [← latest]

theorem Follows.foldl (h : Follows models g seen groups) (rest : List ProviderConfig)
    (declared : ∀ p ∈ rest, mapped models p = true →
      read r.providerPriority p.name = p.priority ∧ read r.providerWeight p.name = p.weight)
    (ordered : (seen ++ rest.filter (mapped models)).Pairwise (·.priority.toInt ≤ ·.priority.toInt)) :
    ∃ groups', Follows models ((rest.map ProviderConfig.name).foldl (r.group models) g)
      (seen ++ rest.filter (mapped models)) groups' := by
  induction rest generalizing g seen groups with
  | nil => exact ⟨groups, by simpa using h⟩
  | cons p rest ih =>
      have later : ∀ q ∈ rest, mapped models q = true →
          read r.providerPriority q.name = q.priority ∧ read r.providerWeight q.name = q.weight :=
        fun q member => declared q (List.mem_cons_of_mem p member)
      rw [List.map_cons, List.foldl_cons]
      by_cases found : mapped models p = true
      · rw [List.filter_cons_of_pos found] at ordered ⊢
        obtain ⟨priority, weight⟩ := declared p List.mem_cons_self found
        obtain ⟨groups', next⟩ := h.group found priority weight (by
          intro q member
          exact (List.pairwise_append.mp ordered).2.2 q member p List.mem_cons_self)
        have split : seen ++ p :: rest.filter (mapped models) =
            seen ++ [p] ++ rest.filter (mapped models) := by simp
        rw [split] at ordered ⊢
        exact ih next later ordered
      · rw [List.filter_cons_of_neg found] at ordered ⊢
        have absent : models.lookup p.name = none := Option.not_isSome_iff_eq_none.mp found
        rw [group_none absent]
        exact ih h later ordered

end Groups

section Divides

theorem by_priority (p q : ProviderConfig) : p.priority ≤ q.priority ↔ p.priority.toInt ≤ q.priority.toInt :=
  Int64.le_iff_toInt_le

theorem sorted_ascending (cfg : Config) :
    (sorted cfg.providers).Pairwise (·.priority.toInt ≤ ·.priority.toInt) :=
  Grouping.insertionSort_ascending by_priority cfg.providers

variable {cfg : Config} (distinct : ((cfg.providers.filter (mapped models)).map ProviderConfig.name).Nodup)
include distinct

/-- Where the names of the mapped declarations are distinct, the maps hold what each declares. -/
theorem read_new {p : ProviderConfig} (member : p ∈ sorted cfg.providers) (found : mapped models p = true) :
    read (new cfg).providerPriority p.name = p.priority ∧ read (new cfg).providerWeight p.name = p.weight := by
  have among : ∀ q ∈ sorted cfg.providers, q.name = p.name → q ∈ cfg.providers.filter (mapped models) := by
    intro q inside same
    refine List.mem_filter.mpr ⟨(List.mem_insertionSort _).mp inside, ?_⟩
    rw [mapped, same]
    exact found
  have known : declared (sorted cfg.providers) p.name = some p := by
    apply declared_eq member
    intro q inside same
    exact List.inj_on_of_nodup_map distinct (among q inside same) (among p member rfl) same
  exact ⟨read_assigned known, read_assigned known⟩

theorem exists_groups : ∃ groups, Grouped (·.priority.toInt) (cfg.providers.filter (mapped models)) groups ∧
    (new cfg).priorityTiers models = groups.map fun group => ⟨group.2.map (candidate models)⟩ := by
  have ordered : ((sorted cfg.providers).filter (mapped models)).Pairwise
      (·.priority.toInt ≤ ·.priority.toInt) := (sorted_ascending cfg).sublist List.filter_sublist
  obtain ⟨groups, follows⟩ := (follows_start models).foldl (sorted cfg.providers)
    (fun _ => read_new distinct) (by simpa using ordered)
  refine ⟨groups, follows.grouped.congr ?_, follows.tiers⟩
  intro k
  rw [List.nil_append, List.filter_comm, sorted, Grouping.filter_insertionSort by_priority, List.filter_comm]

theorem partition_of_distinct :
    ∃ priorities, Partition cfg.providers models priorities ((new cfg).priorityTiers models) := by
  obtain ⟨groups, grouped, tiers⟩ := exists_groups distinct
  have members : ∀ group ∈ groups, ∀ p ∈ group.2,
      p ∈ cfg.providers ∧ mapped models p = true ∧ p.priority.toInt = group.1 := by
    intro group inside p member
    rw [grouped.classes group inside, List.mem_filter, List.mem_filter, decide_eq_true_eq] at member
    exact ⟨member.1.1, member.1.2, member.2⟩
  refine ⟨groups.map Prod.fst, grouped.ascending, ?_, ?_, ?_⟩
  · rw [tiers, List.forall₂_map_left_iff, List.forall₂_map_right_iff, List.forall₂_same]
    intro group inside c chosen
    obtain ⟨p, member, rfl⟩ := List.mem_map.mp chosen
    obtain ⟨provider, -, priority⟩ := members group inside p member
    exact ⟨p, provider, rfl, priority⟩
  · intro p provider model entry
    have found : mapped models p = true := by
      rw [mapped, entry]
      rfl
    have among : p ∈ cfg.providers.filter (mapped models) := List.mem_filter.mpr ⟨provider, found⟩
    constructor
    · rw [countP_priorityTiers]
      exact List.count_eq_one_of_mem distinct (List.mem_map_of_mem among)
    · obtain ⟨group, inside, key⟩ := List.mem_map.mp (grouped.covered p among)
      have member : p ∈ group.2 := by
        rw [grouped.classes group inside, List.mem_filter, decide_eq_true_eq]
        exact ⟨among, key.symm⟩
      refine ⟨_, tiers ▸ List.mem_map_of_mem inside, List.mem_map.mpr ⟨p, member, ?_⟩⟩
      rw [candidate, entry]
      rfl
  · intro t inside
    rw [tiers] at inside
    obtain ⟨group, member, rfl⟩ := List.mem_map.mp inside
    rw [List.map_map, grouped.classes group member]
    exact ((List.filter_sublist.trans List.filter_sublist).map _)

end Divides

/-- If every mapped declaration is a candidate once, no two of them share a name. -/
theorem Partition.distinct {cfg : Config} {priorities : List Int}
    (h : Partition cfg.providers models priorities ((new cfg).priorityTiers models)) :
    ((cfg.providers.filter (mapped models)).map ProviderConfig.name).Nodup := by
  rw [List.nodup_iff_count_le_one]
  intro name
  by_cases member : name ∈ (cfg.providers.filter (mapped models)).map ProviderConfig.name
  · obtain ⟨p, among, rfl⟩ := List.mem_map.mp member
    obtain ⟨provider, found⟩ := List.mem_filter.mp among
    obtain ⟨model, entry⟩ := Option.isSome_iff_exists.mp found
    rw [← countP_priorityTiers]
    exact (h.once p provider model entry).1.le
  · rw [List.count_eq_zero_of_not_mem member]
    exact Nat.zero_le 1

/-- An alias with an entry, no chain and a declared provider resolves to its priority tiers. -/
theorem resolve_priority {cfg : Config} {aliasName : String}
    (entry : cfg.modelAliases.lookup aliasName = some models)
    (chain : (cfg.fallbackChains.lookup aliasName).getD [] = [])
    (some_declared : ∃ p ∈ cfg.providers, mapped models p = true) :
    (new cfg).resolve aliasName = .ok ((new cfg).priorityTiers models) := by
  obtain ⟨p, provider, found⟩ := some_declared
  have models_some : models ≠ [] := by
    rintro rfl
    cases found
  have tiers_some : (new cfg).priorityTiers models ≠ [] := by
    intro none
    have names := names_perm cfg models
    rw [none] at names
    have absent := List.map_eq_nil_iff.mp names.nil_eq.symm
    exact List.not_mem_nil (absent ▸ List.mem_filter.mpr ⟨provider, found⟩)
  have aliases : ((new cfg).modelAliases.lookup aliasName).getD [] = models := by
    change (cfg.modelAliases.lookup aliasName).getD [] = models
    rw [entry]
    rfl
  have chains : ((new cfg).fallbackChains.lookup aliasName).getD [] = [] := chain
  simp only [resolve, aliases, chains, models_some, tiers_some, if_false, ne_eq, not_true_eq_false]

/-- The tiers of an alias divide its declared providers by priority exactly where no two of
those providers were declared under one name. -/
theorem resolve_partitions_iff {isPrint : Char → Bool} (cfg : Config.Accepted isPrint) {aliasName : String}
    {models : List (String × String)} (entry : cfg.modelAliases.lookup aliasName = some models)
    (chain : (cfg.fallbackChains.lookup aliasName).getD [] = [])
    (some_declared : ∃ p ∈ cfg.providers, mapped models p = true) :
    ∃ tiers, (new cfg.toConfig).resolve aliasName = .ok tiers ∧
      ((∃ priorities, Partition cfg.providers models priorities tiers) ↔
        ((cfg.providers.filter (mapped models)).map ProviderConfig.name).Nodup) := by
  refine ⟨_, resolve_priority entry chain some_declared, ?_, partition_of_distinct⟩
  rintro ⟨priorities, partition⟩
  exact partition.distinct

/-- Three providers on two priorities, declared out of order. -/
def threeProviders : Config.Accepted (fun _ => true) :=
  .routing [.mock "b" 2 70, .mock "a" 1 100, .mock "c" 2 30]
    [("chat", [("a", "large"), ("b", "medium"), ("c", "small")])] [] (by decide +kernel)

theorem two_tiers :
    (new threeProviders.toConfig).resolve "chat" =
        .ok [⟨[⟨"a", "large", 100⟩]⟩, ⟨[⟨"b", "medium", 70⟩, ⟨"c", "small", 30⟩]⟩] ∧
      ∃ tiers, (new threeProviders.toConfig).resolve "chat" = .ok tiers ∧
        ∃ priorities, Partition threeProviders.providers [("a", "large"), ("b", "medium"), ("c", "small")]
          priorities tiers := by
  refine ⟨by decide +kernel, ?_⟩
  obtain ⟨tiers, resolved, divides⟩ := resolve_partitions_iff threeProviders
    (rfl : threeProviders.modelAliases.lookup "chat" = some [("a", "large"), ("b", "medium"), ("c", "small")])
    rfl ⟨.mock "a" 1 100, by simp [threeProviders, Config.Accepted.routing], rfl⟩
  exact ⟨tiers, resolved, divides.mpr (by decide +kernel)⟩

/-- One name declared on two priorities. -/
def oneName : Config.Accepted (fun _ => true) :=
  .routing [.mock "a" 1 70, .mock "a" 2 30] [("chat", [("a", "large")])] [] (by decide +kernel)

/-- Both declarations are candidates of one tier, with the weight of the second. -/
theorem one_name_twice :
    (new oneName.toConfig).resolve "chat" = .ok [⟨[⟨"a", "large", 30⟩, ⟨"a", "large", 30⟩]⟩] ∧
      ¬ ∃ priorities, Partition oneName.providers [("a", "large")] priorities
        [⟨[⟨"a", "large", 30⟩, ⟨"a", "large", 30⟩]⟩] := by
  refine ⟨by decide +kernel, ?_⟩
  rintro ⟨priorities, partition⟩
  have once := (partition.once (.mock "a" 1 70) (by simp [oneName, Config.Accepted.routing]) "large" rfl).1
  exact absurd once (by decide)

end Gateway.Router
