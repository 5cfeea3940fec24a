import LetWhile.Ty

/-!
# Scopes

A scope is a chain of frames, the innermost first. A frame binds each of its names once. A name
that the innermost frame does not bind is looked up in the frames around it.
-/

namespace LetWhile

/-- Why a scope refuses a request. -/
inductive ScopeError where
  | alreadyDefined (name : String)
  | notDefined (name : String)
deriving DecidableEq, Repr

/-- The wording of a refusal. -/
def ScopeError.message : ScopeError → String
  | .alreadyDefined name => "variable " ++ name ++ " is already defined"
  | .notDefined name => "variable " ++ name ++ " is not defined"

/-- The names of one frame with their types, in the order of their definition. -/
structure Frame where
  bindings : List (String × Ty) := []
deriving DecidableEq, Repr, Inhabited

namespace Frame

/-- The type of a name in this frame. -/
def find? (f : Frame) (name : String) : Option Ty :=
  f.bindings.lookup name

/-- Binds a name that is not bound here yet. -/
def define (f : Frame) (name : String) (ty : Ty) : Except ScopeError Frame :=
  match f.find? name with
  | some _ => .error (.alreadyDefined name)
  | none => .ok { bindings := f.bindings ++ [(name, ty)] }

/-- The bindings in increasing order of their names. -/
def sorted (f : Frame) : List (String × Ty) :=
  f.bindings.mergeSort fun a b => a.1 ≤ b.1

end Frame

/-- A chain of frames, the innermost first. -/
structure Scope where
  frame : Frame := {}
  outer : List Frame := []
deriving DecidableEq, Repr, Inhabited

namespace Scope

/-- The scope in which nothing is bound. -/
def empty : Scope := {}

/-- The frames of a scope, the innermost first. -/
def frames (s : Scope) : List Frame := s.frame :: s.outer

/-- A scope inside another one, with an empty frame of its own. -/
def nest (s : Scope) : Scope := { frame := {}, outer := s.frames }

/-- The type of a name in the nearest frame that binds it. -/
def find? (s : Scope) (name : String) : Option Ty :=
  s.frames.findSome? fun f => f.find? name

/-- Looks a name up. -/
def lookup (s : Scope) (name : String) : Except ScopeError Ty :=
  match s.find? name with
  | some ty => .ok ty
  | none => .error (.notDefined name)

/-- Binds a name in the innermost frame. -/
def define (s : Scope) (name : String) (ty : Ty) : Except ScopeError Scope :=
  match s.frame.define name ty with
  | .ok f => .ok { s with frame := f }
  | .error e => .error e

end Scope

end LetWhile
