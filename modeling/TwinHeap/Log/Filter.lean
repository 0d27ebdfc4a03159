import TwinHeap.Log.Directive

/-!
Filters: which events a log shows.

A filter is a list of directives. Of those that cover an event the most particular one decides up to
which level it is shown; without one it is not shown.
-/

namespace TwinHeap.Log

/-- A list of directives, later ones replacing earlier ones that cover the same. -/
structure Filter where
  directives : List Directive
deriving DecidableEq, Repr

namespace Filter

/-- The events under the program's own targets, up to a level. -/
def upTo (level : Level) : Filter := ⟨[⟨"gcbridge", none, none, level.rank⟩]⟩

/-- Reads directives with commas between them. Without any directive nothing is shown. -/
def parse (s : String) : Except Directive.Refusal Filter := do
  let parts := (s.splitOn ",").filter fun p => !p.isEmpty
  return ⟨← parts.mapM fun p => Directive.parse p.toList⟩

/-- The directive that decides about an event. -/
def decisive (f : Filter) (e : Event) : Option Directive :=
  (f.directives.filter (·.covers e)).foldl
    (fun best d => match best with
      | none => some d
      | some b => if b.givesWay d then some d else some b)
    none

def shows (f : Filter) (e : Event) : Bool :=
  match f.decisive e with
  | some d => e.level.rank ≤ d.rank
  | none => false

/-- An empty list of directives shows nothing. -/
theorem not_shows_of_nil (e : Event) : shows ⟨[]⟩ e = false := rfl

end Filter

end TwinHeap.Log
