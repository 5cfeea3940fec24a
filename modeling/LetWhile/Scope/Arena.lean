import LetWhile.Scope.Basic

/-!
# Many scopes at once

An arena holds the frames of any number of scopes. A frame names the one around it by its place in
the arena, and a handle is such a place. Frames are only ever added, so a handle stays good.
-/

namespace LetWhile

/-- A frame and the place of the frame around it. -/
structure ArenaFrame where
  parent : Option Nat
  frame : Frame := {}
deriving DecidableEq, Repr, Inhabited

/-- The frames of any number of scopes. -/
structure Arena where
  frames : List ArenaFrame := []
deriving DecidableEq, Repr

namespace Arena

/-- Adds an empty frame inside the frame `parent`; its handle is the second component. -/
def add (a : Arena) (parent : Option Nat) : Arena × Nat :=
  ({ frames := a.frames ++ [{ parent }] }, a.frames.length)

/-- Adds a scope of its own. -/
def root (a : Arena) : Arena × Nat := a.add none

/-- Adds a scope inside another one. -/
def child (a : Arena) (handle : Nat) : Arena × Nat := a.add (some handle)

/-- The handle of the scope around another one. -/
def parent? (a : Arena) (handle : Nat) : Option Nat :=
  a.frames[handle]?.bind ArenaFrame.parent

/-- The frame of a handle; a handle that was never given out has an empty one. -/
def frame (a : Arena) (handle : Nat) : Frame :=
  (a.frames[handle]?.map ArenaFrame.frame).getD {}

/-- Binds a name in the frame of a handle. -/
def define (a : Arena) (handle : Nat) (name : String) (ty : Ty) : Except ScopeError Arena :=
  match (a.frame handle).define name ty with
  | .ok f => .ok { frames := a.frames.modify handle fun af => { af with frame := f } }
  | .error e => .error e

/-- The type of a name in the nearest frame that binds it. The frame around another one is always
older, which bounds the search. -/
def find? (a : Arena) (handle : Nat) (name : String) : Option Ty :=
  match (a.frame handle).find? name with
  | some ty => some ty
  | none =>
    match a.parent? handle with
    | some p => if _ : p < handle then a.find? p name else none
    | none => none
termination_by handle

/-- Looks a name up from a handle. -/
def lookup (a : Arena) (handle : Nat) (name : String) : Except ScopeError Ty :=
  match a.find? handle name with
  | some ty => .ok ty
  | none => .error (.notDefined name)

end Arena

end LetWhile
