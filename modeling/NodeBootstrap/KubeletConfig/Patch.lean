import NodeBootstrap.Text.Basic

/-!
# Patches

A patch puts a text in the place of a span of another text; an empty span inserts. Patches are
applied from the last span to the first, so that none moves a span that is still to come. Of two
that start at the same place the later in the list is applied first: what both insert stands in the
order of the list.
-/

set_option autoImplicit false

namespace NodeBootstrap

/-- A span of a text, from `start` up to `stop`, and what stands there instead. -/
structure Patch where
  start : Nat
  stop : Nat
  replacement : Text
  deriving DecidableEq, Repr

namespace Patch

/-- A text with one span replaced. -/
def apply (p : Patch) (t : Text) : Text := t.take p.start ++ p.replacement ++ t.drop p.stop

/-- The order of application: later spans first, and of equal starts the later patch. -/
def appliedBefore (a b : Patch × Nat) : Bool :=
  b.1.start < a.1.start || (b.1.start = a.1.start && b.2 ≤ a.2)

/-- A text with all spans replaced. -/
def applyAll (patches : List Patch) (t : Text) : Text :=
  (patches.zipIdx.mergeSort appliedBefore).foldl (fun t p => p.1.apply t) t

end Patch

end NodeBootstrap
