import RecordForge.Draw.Script
import RecordForge.Draw.Seeded

/-!
# Either kind of source

* `Supply`: a scripted or a seeded source.
-/

namespace RecordForge

/-- A source that is either written down or determined by a seed. -/
inductive Supply where
  | script (s : Script)
  | seeded (s : Seeded)

namespace Supply

/-- Draw from whichever source it is. -/
def draw {α : Type} (script : Script → α × Script) (seeded : Seeded → α × Seeded) :
    Supply → α × Supply
  | .script s => let (a, s) := script s; (a, .script s)
  | .seeded s => let (a, s) := seeded s; (a, .seeded s)

instance : Source Supply where
  long := draw Source.long Source.long
  below bound h := draw (Source.below bound h) (Source.below bound h)
  fraction := draw Source.fraction Source.fraction
  normal := draw Source.normal Source.normal
  reach
    | .script s => Source.reach s
    | .seeded s => Source.reach s

/-- The source of an integer seed, given how it draws from the standard normal distribution; a negative
seed is none. -/
def ofSeed (seed : Int) (normal : Congruential → Float × Congruential := Congruential.polar) :
    Except Defect Supply :=
  if seed < 0 then .error .negativeSeed else .ok (.seeded ⟨.ofSeed seed.toNat, normal⟩)

end Supply

end RecordForge
