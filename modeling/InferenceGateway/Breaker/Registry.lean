import InferenceGateway.Breaker.Breaker

/-! The registry that lazily creates one breaker per (provider, model) pair. -/
namespace Gateway.Breaker

/-- `created` lists the pairs in the order of their first Get. -/
structure Registry where
  cfg : Config
  breakers : String → Option Breaker := fun _ => none
  created : List (String × String) := []

namespace Registry

def get (r : Registry) (providerName model : String) : Breaker :=
  (r.breakers (key providerName model)).getD (newBreaker providerName model r.cfg)

/-- Get, followed by one method call on the breaker it returned. -/
def update (r : Registry) (providerName model : String) (method : Breaker → Breaker) : Registry :=
  let k := key providerName model
  { r with
    breakers := Function.update r.breakers k (some (method (r.get providerName model)))
    created := if (r.breakers k).isNone then r.created ++ [(providerName, model)] else r.created }

/-- Snapshot in the iteration order `order` proposes, if that is an order of the map. -/
def snapshot (r : Registry) (order : List (String × String)) : List (String × String) :=
  if order.isPerm r.created then order else r.created

theorem breakers_update (r : Registry) (providerName model : String) (method : Breaker → Breaker)
    (k : String) : (r.update providerName model method).breakers k =
      if k = key providerName model then some (method (r.get providerName model))
      else r.breakers k := by
  simp only [update, Function.update_apply]

end Registry
end Gateway.Breaker
