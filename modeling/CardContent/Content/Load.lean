import CardContent.Content.Basic

/-!
# At most one load

A program loads its content once. The load is claimed before anything is read, so that a load that
fails was the one load all the same; a further one is refused without a look at its source.
Decoding takes no claim and heeds none.
-/

set_option autoImplicit false

namespace CardContent

/-- Whether the one load of a program has been claimed (`CardDecoder::is_loaded`). -/
structure LoadGuard where
  claimed : Bool
  deriving DecidableEq, Repr

namespace LoadGuard

/-- The guard of a program that has begun. -/
def fresh : LoadGuard := ⟨false⟩

/-- Claim the load. The answer is whether it was still free. -/
def claim (guard : LoadGuard) : Bool × LoadGuard :=
  (!guard.claimed, ⟨true⟩)

/-- Load the content of a source (`CardDecoder::load`). -/
def load [Name.Spelling] (guard : LoadGuard) (source : Source) : Logged Content × LoadGuard :=
  match guard.claim with
  | (true, guard) => (Content.decode source, guard)
  | (false, guard) => (.error .alreadyLoaded, guard)

end LoadGuard

end CardContent
