import Packrat.Matcher.Composite
import Packrat.Matcher.Rule
import Packrat.Matcher.Terminal

/-!
# Evaluation of expressions

`Expr.matcher` gives every expression its matcher by structural recursion; what a rule does is a
parameter. `callRule` closes the recursion: it allows `n` rules to be open at a time, and an
evaluation that would open more is halted as exhausted.

Under a limit the run itself never opens more rules than that, and without one no terminating run
opens a rule at a position where it is already open. So `Expr.evaluate`, which allows the limit or
otherwise one opening per rule and position, and one more for a reference to no rule, is exhausted
only where the recursion has no end.
-/

namespace Packrat

namespace Expr

mutual

/-- The matcher of an expression, where `call` evaluates rules. -/
def matcher (env : Env) (call : RuleId → Matcher) : Expr → Matcher
  | .builtin c => .builtin env c
  | .char test => .char env test
  | .literal length test => .literal env length test
  | .empty => .succeed .unit
  | .fail message => .fail (.custom message)
  | .position => .position
  | .rule r => call r
  | .optionalAs _ x => .optional (x.matcher env call)
  | .repeatedAs label x count => .repeated env label count (x.matcher env call)
  | .lookaheadAs label negated x => .lookahead env label negated (x.matcher env call)
  | .sequenceAs label _ steps build => .sequence env label (stepMatchers env call steps) build
  | .choiceAs label xs => .choice env label (matchers env call xs)
  | .map _ f x => .map f (x.matcher env call)

/-- The matchers of the steps of a sequence. -/
def stepMatchers (env : Env) (call : RuleId → Matcher) : List (Step Expr) → List (Step Matcher)
  | [] => []
  | ⟨x, store⟩ :: rest => ⟨x.matcher env call, store⟩ :: stepMatchers env call rest

/-- The matchers of a list of alternatives. -/
def matchers (env : Env) (call : RuleId → Matcher) : List Expr → List Matcher
  | [] => []
  | x :: rest => x.matcher env call :: matchers env call rest

end

end Expr

/-- Evaluates a rule with room for `n` open rules. -/
def callRule (env : Env) : (n : Nat) → RuleId → Matcher
  | 0, r => .rule env (throw .exhausted) r
  | n + 1, r => .rule env (.enterBody env (Expr.matcher env (callRule env n)) r) r

/-- The number of open rules that is enough for every evaluation that has an end. -/
def headroom (env : Env) (g : Grammar) : Nat :=
  env.limit.getD (g.rules.size * (env.length + 1) + 1)

/-- Evaluates an expression at the cursor. -/
def Expr.evaluate (env : Env) (x : Expr) : Matcher := do
  x.matcher env (callRule env (headroom env (← get).grammar))

end Packrat
