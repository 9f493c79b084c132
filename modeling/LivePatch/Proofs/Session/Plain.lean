import LivePatch.Proofs.Engine.Serving
import LivePatch.Proofs.Session.Registry
import LivePatch.Session.Operation

/-!
# Code as a plain byte array

What preparing, patching and guarding do if nothing gets in their way, said of an array of bytes: preparing leaves it alone, an
accepted patch is a splice, and a guard keeps the slice that its patch replaced and splices it back when it is given up. A
session refines such a system if their answers agree after every operation, and what they hold does.
-/

namespace LivePatch.Session

/-- The bytes that a guard keeps, and where they belong. -/
structure Saved where
  target : Address
  bytes : Bytes
  deriving DecidableEq, Repr

/-- An array of code that is patched. -/
structure Plain where
  code : Bytes
  /-- The number of images that patches can be made through. -/
  images : Nat := 0
  guards : Registry Saved := []
  deriving DecidableEq, Repr

namespace Plain

variable (region : Region)

/-- The array with bytes in place of those from the target on. -/
def write (plain : Plain) (target : Address) (bytes : Bytes) : Plain :=
  { plain with code := plain.code.splice (target - region.base) bytes }

/-- The bytes from the target on. -/
def slice (plain : Plain) (target : Address) (len : Nat) : Bytes :=
  plain.code.extract (target - region.base) (target - region.base + len)

/-- Places a guard under a name, and gives up the one that had the name. -/
def place (plain : Plain) (name : String) (target : Address) (bytes : Bytes) : Plain :=
  let kept := { plain.write region target bytes with
    guards := plain.guards.put name ⟨target, plain.slice region target bytes.size⟩ }
  match plain.guards.get? name with
  | none => kept
  | some old => kept.write region old.target old.bytes

/-- Gives up the guard under a name. -/
def release (plain : Plain) (name : String) : Plain :=
  match plain.guards.get? name with
  | none => plain
  | some old => { plain with guards := plain.guards.erase name }.write region old.target old.bytes

/-- A patch through the image with this number is accepted. -/
def Accepts (plain : Plain) (image : Nat) (target : Address) (bytes : Bytes) : Prop :=
  image < plain.images ∧ region.Accepts target bytes.size

instance (plain : Plain) (image : Nat) (target : Address) (bytes : Bytes) :
    Decidable (plain.Accepts region image target bytes) := inferInstanceAs (Decidable (_ ∧ _))

/-- What an operation does to the array. -/
def step (plain : Plain) : Operation → Plain
  | .prepare _ => { plain with images := plain.images + 1 }
  | .patch image target bytes => if plain.Accepts region image target bytes then plain.write region target bytes else plain
  | .guard image name target bytes =>
    if plain.Accepts region image target bytes then plain.place region name target bytes else plain
  | .release name => plain.release region name
  | _ => plain

/-- What a patch that is not accepted answers. -/
def refusal (plain : Plain) (image : Nat) (target : Address) (bytes : Bytes) : Answer :=
  if image < plain.images then
    .failure (.outOfRange target bytes.size region.base (region.base + region.size))
  else
    .absent

/-- What an operation may answer. -/
def Answers (plain : Plain) : Operation → Answer → Prop
  | .prepare _, answer => ∃ image, answer = .image image ∧ image.code.base = region.base ∧ image.code.size = region.size
  | .patch image target bytes, answer =>
    answer = if plain.Accepts region image target bytes then .nothing else plain.refusal region image target bytes
  | .guard image _ target bytes, answer =>
    answer = if plain.Accepts region image target bytes then .guard target (plain.slice region target bytes.size)
      else plain.refusal region image target bytes
  | .release name, answer => answer = if (plain.guards.get? name).isSome then .nothing else .absent
  | _, _ => True

end Plain

/-- The bytes that a guard keeps. -/
def Saved.ofGuard (guard : Guard) : Saved := ⟨guard.target, guard.saved⟩

/-- The session holds what the plain array does: the bytes of the code region, so many images, and the guards. -/
structure State.Shows (state : State Testbed) (region : Region) (plain : Plain) : Prop where
  code : state.world.kernel.machine.space.peek region.base region.size = some plain.code
  images : state.images.size = plain.images
  guards : state.guards.mapValues Saved.ofGuard = plain.guards

/-- The session does what the plain array does, operation by operation. -/
def State.Refines (region : Region) : State Testbed → Plain → List Operation → Prop
  | state, plain, [] => state.Shows region plain
  | state, plain, operation :: rest =>
    state.Shows region plain ∧ plain.Answers region operation (state.operate operation).1 ∧
      State.Refines region (state.operate operation).2 (plain.step region operation) rest

end LivePatch.Session
