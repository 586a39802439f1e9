import PolyFront.Naming.Resolve
import PolyFront.Proofs.Faultless.Run

/-!
# Well named trees

The checker relies on what resolution writes into a tree: a written type refers to something
that stands for a type, and every declaration carries the name of a declaration of its own
sort.  Names that were not resolved are allowed everywhere.
-/

namespace PolyFront

/-- Names that a written type can refer to. -/
def Name.NamesType : Name → Prop
  | .nameless => True
  | .builtIn name => (BuiltIn.ofName? name).isSome
  | .data _ => True
  | .constructor _ => True
  | .typeVar _ _ => True
  | .ns _ => False
  | .binding _ => False
  | .field _ => False
  | .bound _ _ => False
  | .synthetic _ => False

def TypeVarNode.Named (var : TypeVarNode Name) : Prop := var.here.info.NamesType

mutual
/-- Every reference and every variable in a written type names a type. -/
def TypeNode.Named : TypeNode Name → Prop
  | .quantified _ binders body => (∀ var ∈ binders, var.Named) ∧ body.Named
  | .function _ args result => TypeNode.NamedList args ∧ result.Named
  | .apply _ head args => head.Named ∧ TypeNode.NamedList args
  | .reference here _ => here.info.NamesType
  | .var node => node.Named
def TypeNode.NamedList : List (TypeNode Name) → Prop
  | [] => True
  | node :: rest => node.Named ∧ TypeNode.NamedList rest
end

/-- A type that may be left out. -/
def TypeNode.NamedOption (node : Option (TypeNode Name)) : Prop :=
  ∀ written, node = some written → written.Named

def Param.Named (param : Param Name) : Prop := TypeNode.NamedOption param.ascription

mutual
/-- Every type that is written in an expression is well named. -/
def Expr.Named : Expr Name → Prop
  | .block _ bindings result => Binding.NamedList bindings ∧ Expr.NamedOption result
  | .conditional _ condition consequent alternative =>
    condition.Named ∧ consequent.Named ∧ alternative.Named
  | .lambda _ params body => (∀ param ∈ params, param.Named) ∧ body.Named
  | .cases _ scrutinee cases => scrutinee.Named ∧ Case.NamedList cases
  | .apply _ function args => function.Named ∧ Expr.NamedList args
  | .select _ receiver _ => receiver.Named
  | .reference _ => True
  | .binary _ _ left right => left.Named ∧ right.Named
  | .unary _ _ operand => operand.Named
  | .literal _ _ => True
def Expr.NamedOption : Option (Expr Name) → Prop
  | none => True
  | some expr => expr.Named
def Expr.NamedList : List (Expr Name) → Prop
  | [] => True
  | expr :: rest => expr.Named ∧ Expr.NamedList rest
def Binding.Named : Binding Name → Prop
  | ⟨_, _, ascription, value⟩ => TypeNode.NamedOption ascription ∧ value.Named
def Binding.NamedList : List (Binding Name) → Prop
  | [] => True
  | binding :: rest => binding.Named ∧ Binding.NamedList rest
def Case.Named : Case Name → Prop
  | ⟨_, _, body⟩ => body.Named
def Case.NamedList : List (Case Name) → Prop
  | [] => True
  | case :: rest => case.Named ∧ Case.NamedList rest
end

def Constructor.Named (node : Constructor Name) : Prop :=
  (∃ name, node.here.info = .constructor name) ∧
    (∀ param ∈ node.params, param.ascription.Named) ∧ TypeNode.NamedOption node.result

def Data.Named (node : Data Name) : Prop :=
  (∃ name, node.here.info = .data name) ∧ (∀ var ∈ node.typeParams, var.Named) ∧
    ∀ constructor ∈ node.constructors, constructor.Named

def FunctionBinding.Named (node : FunctionBinding Name) : Prop :=
  (∃ name, node.here.info = .binding name) ∧ (∀ var ∈ node.typeParams, var.Named) ∧
    (∀ param ∈ node.params, param.Named) ∧ TypeNode.NamedOption node.result ∧ node.body.Named

def Declaration.Named : Declaration Name → Prop
  | .data d => d.Named
  | .binding d => d.Named
  | .function d => d.Named

/-- Every declaration of a namespace is well named. -/
def Namespace.Named (ns : Namespace Name) : Prop :=
  ∀ group ∈ ns.groups, ∀ declaration ∈ group, declaration.Named

/-- The types that a frame binds are names of types. -/
def Frame.TypesNamed (frame : Frame (Located Name)) : Prop :=
  ∀ key here, frame.type? key = some here → here.info.NamesType

theorem Frame.TypesNamed.empty (kind : ScopeKind) :
    (Frame.empty kind : Frame (Located Name)).TypesNamed := by
  intro key here h
  simp [Frame.type?, Frame.empty] at h

theorem Frame.TypesNamed.putType {frame : Frame (Located Name)} (h : frame.TypesNamed)
    {item : Located Name} (hitem : item.info.NamesType) (key : String) :
    (frame.putType key item).TypesNamed := by
  intro other here hother
  simp only [Frame.type?, Frame.putType, Table.get?_insert] at hother
  split at hother
  · obtain rfl := Option.some.inj hother
    exact hitem
  · exact h other here hother

theorem Frame.TypesNamed.populateType {frame : Frame (Located Name)} (h : frame.TypesNamed)
    {item : Located Name} (hitem : item.info.NamesType) (key : String) :
    (frame.populateType key item).TypesNamed := by
  unfold Frame.populateType
  split
  · exact h
  · exact h.putType hitem key

/-- The types that a stack of frames binds are names of types. -/
structure Stack.TypesNamed (stack : Stack (Located Name)) : Prop where
  frames : ∀ frame ∈ stack.frames, frame.TypesNamed
  builtIns : ∀ frame, stack.builtIns = some frame → frame.TypesNamed

theorem Stack.TypesNamed.of_type? {stack : Stack (Located Name)} (h : stack.TypesNamed)
    {key : String} {here : Located Name} (hfound : stack.type? key = some here) :
    here.info.NamesType := by
  rcases Option.or_eq_some_iff.1 hfound with hframe | ⟨-, hbuiltIn⟩
  · obtain ⟨frame, hmem, hframe⟩ := List.exists_of_findSome?_eq_some hframe
    exact h.frames frame hmem key here hframe
  · obtain ⟨frame, hframe, hbound⟩ := Option.bind_eq_some_iff.1 hbuiltIn
    exact h.builtIns frame hframe key here hbound

theorem Stack.TypesNamed.push {stack : Stack (Located Name)} (h : stack.TypesNamed)
    {frame : Frame (Located Name)} (hframe : frame.TypesNamed) :
    (stack.push frame).TypesNamed where
  frames other hother := by
    rcases List.mem_cons.1 hother with rfl | hmem
    · exact hframe
    · exact h.frames other hmem
  builtIns := h.builtIns

/-- The built-in names are names of types. -/
theorem Resolver.builtIns_typesNamed : Resolver.builtIns.TypesNamed := by
  have hground : ∀ type ∈ BuiltIn.ground, (BuiltIn.ofName? type.name).isSome := by decide
  suffices h : ∀ (types : List BuiltIn) (frame : Frame (Located Name)),
      (∀ type ∈ types, (Name.builtIn type.name).NamesType) → frame.TypesNamed →
      (types.foldl (fun frame type => frame.populateType type.name
        (.nowhere (.builtIn type.name))) frame).TypesNamed from
    h _ _ hground (Frame.TypesNamed.empty .builtIn)
  intro types
  induction types with
  | nil => exact fun frame _ hframe => hframe
  | cons type rest ih =>
    intro frame htypes hframe
    refine ih _ (fun other hother => htypes other (List.mem_cons_of_mem _ hother)) ?_
    exact hframe.populateType (htypes type List.mem_cons_self) type.name

end PolyFront
