/-!
# Rules for answers

A rule waits for calls of one hook, at one named place or at any, and has them handled: every call,
or only the one that makes its count reach a given number.
-/

namespace SyntaxWalk

structure Rule where
  hook : String
  /-- The place that the call must be at. -/
  site : Option String := none
  /-- The count of calls at which the rule applies. -/
  nth : Option Nat := none
  deriving DecidableEq

namespace Rule

def matchesCall (r : Rule) (hook : String) (site : Option String) : Bool :=
  r.hook == hook && (r.site.isNone || r.site == site)

/-- Counts a call with every rule that it matches; the answer is whether one of them applies. -/
def consult (hook : String) (site : Option String) : List (Rule × Nat) → Bool × List (Rule × Nat)
  | [] => (false, [])
  | (r, count) :: rest =>
    let (applies, counted) := consult hook site rest
    if r.matchesCall hook site then
      (applies || r.nth.all (· == count + 1), (r, count + 1) :: counted)
    else (applies, (r, count) :: counted)

end Rule

end SyntaxWalk
