import Mathlib
import PolyFront.Proofs.Annotation.Values
import PolyFront.Proofs.Naming.Permuted

/-!
# What declarations bind

A declaration binds nodes of its tree under slots of the namespace's frame: a value declaration
binds itself, a data type binds itself as a type, each constructor as a value and as a type, and
each parameter of a constructor as a field.  A type may have two declarations, a data type and a
constructor that comes later, and the later one takes the place of the first.
-/

namespace PolyFront

/-! ## Nodes and their slots -/

section Nodes

variable {α β : Type}

/-- The nodes that a constructor of a data type binds. As a type it stands for the data type. -/
def Constructor.nodes (data : QualifiedName) (here : Located α) (node : Constructor α) :
    List (Slot × Located α) :=
  (.value node.name, node.here) :: (.type node.name, here) ::
    node.params.map fun param => (.field (.ofData data node.name) param.name, param.here)

/-- The nodes that a declaration binds, by their slots, in the order in which they are bound. -/
def Declaration.nodes (ns : NamespaceName) : Declaration α → List (Slot × Located α)
  | .data d =>
    (.type d.name, d.here) :: d.constructors.flatMap (Constructor.nodes ⟨ns, d.name⟩ d.here)
  | .binding d => [(.value d.name, d.here)]
  | .function d => [(.value d.name, d.here)]

/-- The slots that a declaration binds. -/
def Declaration.slots (ns : NamespaceName) (d : Declaration α) : List Slot :=
  (d.nodes ns).map Prod.fst

/-- A node with another annotation. -/
def Slot.traverseNode (f : α → Id β) (entry : Slot × Located α) : Slot × Located β :=
  (entry.1, (entry.2.traverse f).run)

theorem Constructor.nodes_traverse (f : α → Id β) (data : QualifiedName) (here : Located α)
    (node : Constructor α) : Constructor.nodes data (here.traverse f).run (node.traverse f).run =
      (node.nodes data here).map (Slot.traverseNode f) := by
  have hparams : (node.traverse f).run.params =
      node.params.map fun param => (param.traverse f).run := List.idRun_mapM
  rw [nodes, nodes, hparams, List.map_cons, List.map_cons, List.map_map, List.map_map]
  rfl

/-- Annotations that are put in the place of others stay at their slots. -/
theorem Declaration.nodes_traverse (f : α → Id β) (ns : NamespaceName) (d : Declaration α) :
    Declaration.nodes ns (d.traverse f).run = (d.nodes ns).map (Slot.traverseNode f) := by
  cases d with
  | data d =>
    have hconstructors : (d.traverse f).run.constructors =
        d.constructors.map fun c => (c.traverse f).run := List.idRun_mapM
    show Declaration.nodes ns (.data (d.traverse f).run) = _
    rw [nodes, nodes, hconstructors, List.map_cons, List.flatMap_map, List.map_flatMap]
    refine congrArg (_ :: ·) (List.flatMap_congr fun c _ => ?_)
    exact c.nodes_traverse f _ _
  | binding d =>
    obtain ⟨here, name, ascription, value⟩ := d
    rfl
  | function d => rfl

theorem Declaration.slots_traverse (f : α → Id β) (ns : NamespaceName) (d : Declaration α) :
    Declaration.slots ns (d.traverse f).run = d.slots ns := by
  rw [slots, nodes_traverse, List.map_map]
  rfl

/-- The slots of a declaration are those of its entries. -/
theorem Declaration.slots_eq_entries (ns : NamespaceName) (d : Declaration Unit) :
    d.slots ns = (d.entries ns).map Entry.slot := by
  have hconstructor : ∀ (data : QualifiedName) (here : Located Unit) (c : Constructor Unit),
      (c.nodes data here).map Prod.fst = (c.entries data).map Entry.slot := by
    intro data here c
    rw [Constructor.nodes, Constructor.entries]
    simp only [List.map_cons, List.map_map]
    rfl
  cases d with
  | data d =>
    rw [slots, nodes, entries, List.map_cons, List.map_cons, List.map_flatMap, List.map_flatMap]
    simp only [hconstructor]
  | binding d => rfl
  | function d => rfl

end Nodes

/-! ## Names of resolved nodes -/

/-- A constructor and its parameters carry their own names. -/
structure Constructor.Addressed (data : QualifiedName) (node : Constructor Name) : Prop where
  here : node.here.info = .constructor (.ofData data node.name)
  params : ∀ param ∈ node.params, param.here.info = .field ⟨.ofData data node.name, param.name⟩

/-- The nodes that a declaration binds carry their own names. -/
def Declaration.Addressed (ns : NamespaceName) : Declaration Name → Prop
  | .data d => d.here.info = .data ⟨ns, d.name⟩ ∧
    ∀ constructor ∈ d.constructors, constructor.Addressed ⟨ns, d.name⟩
  | .binding d => d.here.info = .binding ⟨ns, d.name⟩
  | .function d => d.here.info = .binding ⟨ns, d.name⟩

namespace Resolve

open Run

variable {shape : List ScopeKind} {ns : NamespaceName} {s : Resolver}

/-- The namespace of the declarations is known from the constructs around. -/
theorem inNamespace_ends {α : Type} {good : α → Prop} {next : NamespaceName → Resolve α}
    (hns : s.stack.shape.findSome? ScopeKind.namespace? = some ns) (hnext : Gives (next ns) good) :
    Ends (currentNamespace >>= next) s fun a _ => good a := by
  refine Ends.bind (Ends.bind (Ends.get ?_))
  rw [Stack.enclosingNamespace?_eq, hns]
  exact Ends.pure (hnext s)

theorem constructor_addressed (data : QualifiedName) (node : Constructor Unit) :
    Gives (constructor data node) (Constructor.Addressed data) := by
  refine Gives.skip fun _ => Gives.skip fun _ => withFrame_gives ?_
  have hparams : Gives (node.params.mapM (constructorParam (.ofData data node.name)))
      fun params => ∀ param ∈ params,
        param.here.info = .field ⟨.ofData data node.name, param.name⟩ :=
    Gives.mapM_all fun param _ => Gives.skip fun _ => Gives.pure rfl
  exact Gives.bind hparams fun params hnames => Gives.skip fun _ => Gives.pure ⟨rfl, hnames⟩

theorem data_addressed (hns : s.stack.shape.findSome? ScopeKind.namespace? = some ns)
    (node : Data Unit) : Ends (data node) s fun d _ => (Declaration.data d).Addressed ns := by
  refine inNamespace_ends hns (Gives.skip fun frame => withFrame_gives (Gives.skip fun _ => ?_))
  refine Gives.bind (Gives.mapM_all fun c _ => constructor_addressed _ c) ?_
  exact fun constructors hnamed => Gives.pure ⟨rfl, hnamed⟩

theorem topLevelBinding_addressed (hns : s.stack.shape.findSome? ScopeKind.namespace? = some ns)
    (node : Binding Unit) :
    Ends (topLevelBinding node) s fun d _ => (Declaration.binding d).Addressed ns :=
  inNamespace_ends hns (withFrame_gives (Gives.skip fun _ => Gives.skip fun _ => Gives.pure rfl))

theorem functionBinding_addressed (hns : s.stack.shape.findSome? ScopeKind.namespace? = some ns)
    (node : FunctionBinding Unit) :
    Ends (functionBinding node) s fun d _ => (Declaration.function d).Addressed ns := by
  refine inNamespace_ends hns (Gives.skip fun frame => withFrame_gives (withFrame_gives ?_))
  exact Gives.skip fun _ => Gives.skip fun _ => Gives.skip fun _ => Gives.skip fun _ =>
    Gives.pure rfl

/-- Declarations are resolved to trees that carry their names. -/
theorem declaration_addressed (hns : s.stack.shape.findSome? ScopeKind.namespace? = some ns)
    (node : Declaration Unit) : Ends (declaration node) s fun d _ => d.Addressed ns := by
  let reset : Resolver := { s with nextLocal := 0 }
  have hreset : reset.stack.shape.findSome? ScopeKind.namespace? = some ns := hns
  refine Ends.bind (Ends.modify ?_)
  cases node with
  | data d => exact Ends.bind ((data_addressed hreset d).mono fun _ _ h => Ends.pure h)
  | binding d =>
    exact Ends.bind ((topLevelBinding_addressed hreset d).mono fun _ _ h => Ends.pure h)
  | function d =>
    exact Ends.bind ((functionBinding_addressed hreset d).mono fun _ _ h => Ends.pure h)

end Resolve

/-! ## Data types and pseudo-types of one name -/

/-- The data type `X` with the constructor `C`, which takes a `C[Int]`. -/
def Data.wrapper : Data Unit :=
  ⟨⟨default, ()⟩, "X", [], [⟨⟨default, ()⟩, "C", [⟨⟨default, ()⟩, "x",
    .apply ⟨default, ()⟩ (.reference ⟨default, ()⟩ ⟨default, none, "C"⟩)
      [.reference ⟨default, ()⟩ ⟨default, none, "Int"⟩]⟩], none⟩]⟩

/-- What the tree of a data type carries, and what is bound for it. -/
def CheckedNamespace.classifiersOf (checked : CheckedNamespace) (name : String) :
    Option (Classifier × Option Classifier) :=
  checked.tree.declarations.findSome? fun
    | .data d =>
      if d.name = name then
        let bound := checked.bindings.type? (QualifiedName.canonical ⟨checked.tree.id.name, name⟩)
        some (d.here.info.classifier, bound.map fun here => here.info.classifier)
      else none
    | _ => none

/-- The same for a namespace that is yet to be checked. -/
def Namespace.classifiersOf (ns : Namespace Unit) (name : String) :
    Option (Classifier × Option Classifier) :=
  match ns.check "" with
  | .ok checked => checked.classifiersOf name
  | .error _ => none

/-- The kind of a data type is overwritten by that of a later one with a constructor of its
name. -/
theorem Namespace.exists_kind_overwritten :
    ∃ (ns : Namespace Unit) (checked : CheckedNamespace) (d : Data Attributes)
      (bound : Located Attributes), ns.isQuiet = true ∧
        (∀ d ∈ ns.declarations, ∀ text ∈ d.texts, '.' ∉ text.toList) ∧
        ns.check "" = .ok checked ∧ .data d ∈ checked.tree.declarations ∧
        checked.bindings.type? (QualifiedName.canonical ⟨checked.tree.id.name, d.name⟩) =
          some bound ∧
        d.here.info.classifier = .ofKind (.higher [.type] .type) ∧
        bound.info.classifier = .ofKind .type := by
  have hclassifiers : (pair .parametric .wrapper).classifiersOf "C" =
      some (.ofKind (.higher [.type] .type), some (.ofKind .type)) := by cbv
  rw [classifiersOf] at hclassifiers
  split at hclassifiers
  · rename_i checked hcheck
    obtain ⟨declaration, hmem, hfound⟩ := List.exists_of_findSome?_eq_some hclassifiers
    split at hfound
    · rename_i d
      split at hfound
      · rename_i hname
        obtain ⟨htree, hbound⟩ := Prod.mk.inj (Option.some.inj hfound)
        obtain ⟨bound, hfound, hkind⟩ := Option.map_eq_some_iff.1 hbound
        rw [← hname] at hfound
        exact ⟨pair .parametric .wrapper, checked, d, bound, by decide +kernel, by decide +kernel,
          hcheck, hmem, hfound, htree, hkind⟩
      · cases hfound
    · cases hfound
  · cases hclassifiers

end PolyFront
