import InferenceGateway.Config.Config
import InferenceGateway.Retry.Engine

/-! Package router: the tiers of candidates behind a model alias. A Go map is a list of
pairs here, with the newest assignment in front. -/
namespace Gateway
open Gateway.Config (ProviderConfig)
open Gateway.Retry (Candidate Tier)

def Router.errUnknownModel : String := "router: unknown model alias"

structure Router where
  modelAliases : List (String × List (String × String))
  fallbackChains : List (String × List String)
  providerOrder : List String
  providerPriority : List (String × Int64)
  providerWeight : List (String × Int64)

namespace Router

/-- Reading a map of numbers; an absent key reads as zero. -/
def read (m : List (String × Int64)) (name : String) : Int64 := (m.lookup name).getD 0

/-- The sort of New: by priority, stable. -/
def sorted (providers : List ProviderConfig) : List ProviderConfig :=
  providers.insertionSort fun p q => p.priority ≤ q.priority

/-- One map of New, assigned name by name in the sorted order. -/
def assigned (value : ProviderConfig → Int64) (order : List ProviderConfig) : List (String × Int64) :=
  order.foldl (fun m p => (p.name, value p) :: m) []

def new (cfg : Config) : Router where
  modelAliases := cfg.modelAliases
  fallbackChains := cfg.fallbackChains
  providerOrder := (sorted cfg.providers).map ProviderConfig.name
  providerPriority := assigned ProviderConfig.priority (sorted cfg.providers)
  providerWeight := assigned ProviderConfig.weight (sorted cfg.providers)

/-- The loop over an explicit chain: one tier for each provider the alias maps. -/
def chainTiers (r : Router) (providerModels : List (String × String)) (chain : List String) : List Tier :=
  chain.filterMap fun name =>
    (providerModels.lookup name).map fun model => ⟨[⟨name, model, read r.providerWeight name⟩]⟩

/-- The variables of the loop over the default order. -/
structure TierLoop where
  tiers : List Tier := []
  lastPriority : Int64 := 0
  haveTier : Bool := false

/-- One turn of that loop. -/
def group (r : Router) (providerModels : List (String × String)) (g : TierLoop) (name : String) : TierLoop :=
  match providerModels.lookup name with
  | none => g
  | some model =>
      let p := read r.providerPriority name
      let cand : Candidate := ⟨name, model, read r.providerWeight name⟩
      if g.haveTier ∧ p = g.lastPriority then
        { g with tiers := g.tiers.modifyLast fun t => ⟨t.candidates ++ [cand]⟩ }
      else { tiers := g.tiers ++ [⟨[cand]⟩], lastPriority := p, haveTier := true }

def priorityTiers (r : Router) (providerModels : List (String × String)) : List Tier :=
  (r.providerOrder.foldl (r.group providerModels) {}).tiers

def resolve (r : Router) (aliasName : String) : Except String (List Tier) :=
  let providerModels := (r.modelAliases.lookup aliasName).getD []
  if providerModels = [] then .error errUnknownModel
  else
    let chain := (r.fallbackChains.lookup aliasName).getD []
    let tiers := if chain ≠ [] then r.chainTiers providerModels chain else r.priorityTiers providerModels
    if tiers = [] then .error errUnknownModel else .ok tiers

/-- The candidate both loops build for a name. -/
def offered (r : Router) (name model : String) : Candidate := ⟨name, model, read r.providerWeight name⟩

/-- The declaration of a name that was assigned last. -/
def declared (order : List ProviderConfig) (name : String) : Option ProviderConfig :=
  order.reverse.find? fun p => p.name = name

theorem assigned_eq (value : ProviderConfig → Int64) (order : List ProviderConfig) :
    assigned value order = (order.map fun p => (p.name, value p)).reverse := by
  have all : ∀ start, order.foldl (fun m p => (p.name, value p) :: m) start =
      (order.map fun p => (p.name, value p)).reverse ++ start := by
    induction order with
    | nil => exact fun _ => rfl
    | cons p order ih =>
        intro start
        rw [List.foldl_cons, ih, List.map_cons, List.reverse_cons, List.append_assoc]
        rfl
  exact (all []).trans (List.append_nil _)

theorem lookup_assigned (value : ProviderConfig → Int64) (order : List ProviderConfig) (name : String) :
    (assigned value order).lookup name = (declared order name).map value := by
  rw [assigned_eq, ← List.map_reverse, declared]
  induction order.reverse with
  | nil => rfl
  | cons p rest ih =>
      rw [List.map_cons, List.find?_cons]
      by_cases same : p.name = name
      · simp [same]
      · have other : (name == p.name) = false := beq_false_of_ne (Ne.symm same)
        simp [List.lookup_cons, other, same, ih]

variable {value : ProviderConfig → Int64} {order : List ProviderConfig} {p : ProviderConfig} {name : String}

theorem read_assigned (known : declared order name = some p) : read (assigned value order) name = value p := by
  rw [read, lookup_assigned, known]
  rfl

theorem declared_some (found : declared order name = some p) : p ∈ order ∧ p.name = name := by
  have member := List.mem_of_find?_eq_some found
  have same := List.find?_some found
  exact ⟨List.mem_reverse.mp member, by simpa using same⟩

/-- A declaration whose name no other one has is the one the maps know. -/
theorem declared_eq (member : p ∈ order) (only : ∀ q ∈ order, q.name = p.name → q = p) :
    declared order p.name = some p := by
  cases found : declared order p.name with
  | none =>
      have absent := List.find?_eq_none.mp found p (List.mem_reverse.mpr member)
      simp at absent
  | some q =>
      obtain ⟨among, same⟩ := declared_some found
      rw [only q among same]

end Router

/-- A deployment of given providers and routes. -/
def Config.Accepted.routing (providers : List ProviderConfig)
    (modelAliases : List (String × List (String × String))) (fallbackChains : List (String × List String))
    (valid : (providers.zipIdx.flatMap fun p => p.1.validate (fun _ => true) p.2) = []) :
    Config.Accepted (fun _ => true) where
  toConfig :=
    { (Config.Accepted.deployment ⟨.finite 1, 1, 1, 1, 1, 1, 1⟩ ⟨1, 1, 1⟩ (by decide +kernel)).toConfig with
      providers, modelAliases, fallbackChains }
  accepted := by
    simp only [Config.validate, valid]
    decide +kernel

/-- A provider of type mock. -/
def Config.ProviderConfig.mock (name : String) (priority weight : Int64) : Config.ProviderConfig :=
  ⟨name, "mock", "", "", priority, weight, 1, .finite 0⟩

end Gateway
