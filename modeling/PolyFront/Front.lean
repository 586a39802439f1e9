import PolyFront.Checking.Declarations
import PolyFront.Naming.Resolve

/-!
# The front end

A namespace as it was read is resolved among the built-in names, and the resolved
namespace is checked among the built-in types.
-/

namespace PolyFront

/-- What the front end makes of a namespace. -/
structure CheckedNamespace where
  /-- What was reported while names were resolved. -/
  namingLog : Log
  /-- What was reported while kinds and types were checked. -/
  typingLog : Log
  tree : Namespace Attributes
  /-- The top-level bindings of the namespace. -/
  bindings : Frame (Located Attributes)
  /-- The solutions, and the frames that are left on the stack. -/
  store : Store

/-- Resolve a namespace among the built-in names alone. -/
def Namespace.resolve (uri : String) (ns : Namespace Unit) :
    EStateM.Result Fault Resolver (Namespace Name) :=
  Resolve.namespaceNode ns (Resolver.start uri (Stack.ofBuiltIns Resolver.builtIns))

/-- Resolve and check a namespace. -/
def Namespace.check (uri : String) (ns : Namespace Unit) : Except Fault CheckedNamespace :=
  match ns.resolve uri with
  | .error fault _ => .error fault
  | .ok resolved resolver =>
    match Check.namespaceNode resolved (Checker.start uri) with
    | .error fault _ => .error fault
    | .ok (tree, bindings) checker =>
      .ok ⟨resolver.log, checker.log, tree, bindings, checker.store⟩

end PolyFront
