import Imperative.Analysis.Placement
import Imperative.Analysis.Resolution

/-!
# Analysis

A module is fit to run when its names resolve and its jumps are placed well.  Names come
first, so of two failures the one about names is reported, wherever the two stand.
-/

namespace Imperative

/-- What an analysis leaves behind: the module with the marks at its calls, whether it came
through, and what happened to the scopes, in the order in which it happened. -/
structure Analysis where
  module : Module
  verdict : Verdict
  events : List Event

/-- Analyses a module with a resolver and a checker that have done nothing before. -/
def Module.analyze (m : Module) : Analysis :=
  let ((resolved, verdict), resolver) := ({} : Resolver).resolve m
  { module := resolved
    verdict := match verdict with
      | .error failure => .error failure
      | .ok () => (({} : PlacementChecker).check resolved).1
    events := resolver.log.reverse }

end Imperative
