import PolyFront.Naming.Resolve

/-!
# Mentions and binders of a resolved tree

A resolved tree mentions values, types, type variables and constructors by their texts, and binds
local names.  Its mentions are listed from left to right, each with the local binders of the
blocks, lambdas, functions and cases around it.
-/

namespace PolyFront

/-- A node that binds a local name. -/
structure Binder where
  here : Located Name
  text : String

def Binder.name (b : Binder) : Name := b.here.info

/-- The text under which the name is found. -/
def Binder.entry (b : Binder) : String × Name := (b.text, b.name)

/-- A node that refers to something by its text. -/
inductive Mention where
  | value (node : Reference Name)
  | type (here : Located Name) (id : QualifiedId)
  | typeVar (var : TypeVarNode Name)
  | constructor (here : Located Name) (id : QualifiedId) (fields : List (FieldPattern Name))

namespace Mention

def here : Mention → Located Name
  | .value node => node.here
  | .type here _ => here
  | .typeVar var => var.here
  | .constructor here _ _ => here

/-- The text that is looked up. -/
def text : Mention → String
  | .value node => node.id.canonical
  | .type _ id => id.canonical
  | .typeVar var => var.name
  | .constructor _ id _ => id.canonical

/-- What a mention is of when nothing is found. -/
def missing : Mention → String
  | .value _ => "undefined value"
  | .type _ _ => "undefined type"
  | .typeVar _ => "undefined type"
  | .constructor _ _ _ => "unknown constructor"

/-- The report of a mention for which nothing is found. -/
def complaint (uri : String) (m : Mention) : Diagnostic :=
  ⟨⟨uri, m.here.range⟩, .error, "Reference to " ++ m.missing ++ " '" ++ m.text ++ "'", []⟩

end Mention

/-! ## Types and patterns -/

mutual
def TypeNode.mentions : TypeNode Name → List Mention
  | .quantified _ binders body => binders.map .typeVar ++ body.mentions
  | .function _ args result => TypeNode.mentionsList args ++ result.mentions
  | .apply _ head args => head.mentions ++ TypeNode.mentionsList args
  | .reference here id => [.type here id]
  | .var node => [.typeVar node]
def TypeNode.mentionsList : List (TypeNode Name) → List Mention
  | [] => []
  | node :: rest => node.mentions ++ TypeNode.mentionsList rest
end

def TypeNode.mentionsOption (node : Option (TypeNode Name)) : List Mention :=
  node.elim [] TypeNode.mentions

mutual
def Pattern.binders : Pattern Name → List Binder
  | .alias here name inner => ⟨here, name⟩ :: inner.binders
  | .constructor _ _ fields => FieldPattern.bindersList fields
  | .id here name => [⟨here, name⟩]
  | .literal _ _ => []
def FieldPattern.binders : FieldPattern Name → List Binder
  | ⟨here, field, none⟩ => [⟨here, field⟩]
  | ⟨_, _, some inner⟩ => inner.binders
def FieldPattern.bindersList : List (FieldPattern Name) → List Binder
  | [] => []
  | field :: rest => field.binders ++ FieldPattern.bindersList rest
end

mutual
def Pattern.mentions : Pattern Name → List Mention
  | .alias _ _ inner => inner.mentions
  | .constructor here id fields =>
    .constructor here id fields :: FieldPattern.mentionsList fields
  | .id _ _ => []
  | .literal _ _ => []
def FieldPattern.mentions : FieldPattern Name → List Mention
  | ⟨_, _, none⟩ => []
  | ⟨_, _, some inner⟩ => inner.mentions
def FieldPattern.mentionsList : List (FieldPattern Name) → List Mention
  | [] => []
  | field :: rest => field.mentions ++ FieldPattern.mentionsList rest
end

/-! ## Expressions -/

def Param.binder (param : Param Name) : Binder := ⟨param.here, param.name⟩

def Binding.binder (binding : Binding Name) : Binder := ⟨binding.here, binding.name⟩

mutual
def Expr.binders : Expr Name → List Binder
  | .block _ bindings result => Binding.bindersList bindings ++ Expr.bindersOption result
  | .conditional _ condition consequent alternative =>
    condition.binders ++ consequent.binders ++ alternative.binders
  | .lambda _ params body => params.map Param.binder ++ body.binders
  | .cases _ scrutinee cases => scrutinee.binders ++ Case.bindersList cases
  | .apply _ function args => function.binders ++ Expr.bindersList args
  | .select _ receiver _ => receiver.binders
  | .reference _ => []
  | .binary _ _ left right => left.binders ++ right.binders
  | .unary _ _ operand => operand.binders
  | .literal _ _ => []
def Expr.bindersOption : Option (Expr Name) → List Binder
  | none => []
  | some expr => expr.binders
def Expr.bindersList : List (Expr Name) → List Binder
  | [] => []
  | expr :: rest => expr.binders ++ Expr.bindersList rest
/-- A binding inside a block with the binders of its value. -/
def Binding.binders : Binding Name → List Binder
  | ⟨here, name, _, value⟩ => ⟨here, name⟩ :: value.binders
def Binding.bindersList : List (Binding Name) → List Binder
  | [] => []
  | binding :: rest => binding.binders ++ Binding.bindersList rest
def Case.binders : Case Name → List Binder
  | ⟨_, pattern, body⟩ => pattern.binders ++ body.binders
def Case.bindersList : List (Case Name) → List Binder
  | [] => []
  | case :: rest => case.binders ++ Case.bindersList rest
end

/-- Mentions with the same local binders around them. -/
def amid (around : List Binder) (mentions : List Mention) : List (Mention × List Binder) :=
  mentions.map fun mention => (mention, around)

def Param.mentions (param : Param Name) : List Mention :=
  TypeNode.mentionsOption param.ascription

mutual
/-- The mentions of an expression, when the given binders are around it. -/
def Expr.mentions (around : List Binder) : Expr Name → List (Mention × List Binder)
  | .block _ bindings result =>
    Binding.mentionsList (around ++ bindings.map Binding.binder) bindings ++
      Expr.mentionsOption (around ++ bindings.map Binding.binder) result
  | .conditional _ condition consequent alternative =>
    condition.mentions around ++ consequent.mentions around ++ alternative.mentions around
  | .lambda _ params body =>
    amid (around ++ params.map Param.binder) (params.flatMap Param.mentions) ++
      body.mentions (around ++ params.map Param.binder)
  | .cases _ scrutinee cases => scrutinee.mentions around ++ Case.mentionsList around cases
  | .apply _ function args => function.mentions around ++ Expr.mentionsList around args
  | .select _ receiver selection => receiver.mentions around ++ [(.value selection, around)]
  | .reference node => [(.value node, around)]
  | .binary _ _ left right => left.mentions around ++ right.mentions around
  | .unary _ _ operand => operand.mentions around
  | .literal _ _ => []
def Expr.mentionsOption (around : List Binder) : Option (Expr Name) → List (Mention × List Binder)
  | none => []
  | some expr => expr.mentions around
def Expr.mentionsList (around : List Binder) : List (Expr Name) → List (Mention × List Binder)
  | [] => []
  | expr :: rest => expr.mentions around ++ Expr.mentionsList around rest
def Binding.mentions (around : List Binder) : Binding Name → List (Mention × List Binder)
  | ⟨_, _, ascription, value⟩ =>
    amid around (TypeNode.mentionsOption ascription) ++ value.mentions around
def Binding.mentionsList (around : List Binder) :
    List (Binding Name) → List (Mention × List Binder)
  | [] => []
  | binding :: rest => binding.mentions around ++ Binding.mentionsList around rest
def Case.mentions (around : List Binder) : Case Name → List (Mention × List Binder)
  | ⟨_, pattern, body⟩ =>
    amid (around ++ pattern.binders) pattern.mentions ++
      body.mentions (around ++ pattern.binders)
def Case.mentionsList (around : List Binder) : List (Case Name) → List (Mention × List Binder)
  | [] => []
  | case :: rest => case.mentions around ++ Case.mentionsList around rest
end

/-! ## Declarations -/

/-- The local binders of a declaration, from left to right. -/
def Declaration.binders : Declaration Name → List Binder
  | .data _ => []
  | .binding d => d.value.binders
  | .function d => d.params.map Param.binder ++ d.body.binders

def Constructor.mentions (node : Constructor Name) : List Mention :=
  node.params.flatMap (fun param => param.ascription.mentions) ++
    TypeNode.mentionsOption node.result

def Data.mentions (d : Data Name) : List Mention :=
  d.typeParams.map .typeVar ++ d.constructors.flatMap Constructor.mentions

def FunctionBinding.mentions (around : List Binder) (d : FunctionBinding Name) :
    List (Mention × List Binder) :=
  amid (around ++ d.params.map Param.binder) (d.typeParams.map .typeVar ++
      d.params.flatMap Param.mentions ++ TypeNode.mentionsOption d.result) ++
    d.body.mentions (around ++ d.params.map Param.binder)

/-- The mentions of a declaration, from left to right. -/
def Declaration.mentions : Declaration Name → List (Mention × List Binder)
  | .data d => amid [] d.mentions
  | .binding d => d.mentions []
  | .function d => d.mentions []

/-! ## Binders around a mention -/

theorem mem_amid {around : List Binder} {mentions : List Mention}
    {entry : Mention × List Binder} :
    entry ∈ amid around mentions ↔ entry.1 ∈ mentions ∧ entry.2 = around := by
  obtain ⟨mention, inner⟩ := entry
  simp only [amid, List.mem_map, Prod.mk.injEq]
  constructor
  · rintro ⟨_, hmention, rfl, rfl⟩
    exact ⟨hmention, rfl⟩
  · rintro ⟨hmention, rfl⟩
    exact ⟨mention, hmention, rfl, rfl⟩

/-- The binders around the mentions are binders of the tree, or those around all of it. -/
def StayWithin (around binders : List Binder) (mentions : List (Mention × List Binder)) : Prop :=
  ∀ entry ∈ mentions, entry.2 ⊆ around ++ binders

section StayWithin

variable {around binders binders' : List Binder} {mentions mentions' : List (Mention × List Binder)}

theorem stayWithin_nil : StayWithin around binders [] := fun _ h => (List.not_mem_nil h).elim

theorem stayWithin_amid (mentions : List Mention) :
    StayWithin around binders (amid around mentions) := by
  intro entry hentry
  rw [(mem_amid.1 hentry).2]
  exact List.subset_append_left _ _

theorem StayWithin.append (h : StayWithin around binders mentions)
    (h' : StayWithin around binders' mentions') :
    StayWithin around (binders ++ binders') (mentions ++ mentions') := by
  intro entry hentry b hb
  rcases List.mem_append.1 hentry with hmem | hmem
  · have := h entry hmem hb
    grind
  · have := h' entry hmem hb
    grind

/-- A construct adds some of its own binders to those around it. -/
theorem StayWithin.enclosed {own : List Binder} (h : StayWithin (around ++ own) binders mentions)
    (hown : own ⊆ binders') (hbinders : binders ⊆ binders') :
    StayWithin around binders' mentions := by
  intro entry hentry b hb
  have := h entry hentry hb
  grind

end StayWithin

theorem Binding.binder_mem : ∀ bindings : List (Binding Name),
    bindings.map Binding.binder ⊆ Binding.bindersList bindings
  | [] => List.Subset.refl _
  | ⟨here, name, _, value⟩ :: rest => by
    have hrest := Binding.binder_mem rest
    grind [Binding.bindersList, Binding.binders, Binding.binder]

mutual
theorem Expr.mentions_stayWithin (around : List Binder) :
    ∀ node : Expr Name, StayWithin around node.binders (node.mentions around)
  | .block _ bindings result =>
    ((Binding.mentionsList_stayWithin _ bindings).append
        (Expr.mentionsOption_stayWithin _ result)).enclosed
      (List.subset_append_of_subset_left _ (Binding.binder_mem bindings)) (List.Subset.refl _)
  | .conditional _ condition consequent alternative =>
    ((condition.mentions_stayWithin around).append (consequent.mentions_stayWithin around)).append
      (alternative.mentions_stayWithin around)
  | .lambda _ params body =>
    ((stayWithin_amid _).append (body.mentions_stayWithin _)).enclosed
      (List.subset_append_left _ _) (List.Subset.refl _)
  | .cases _ scrutinee cases =>
    (scrutinee.mentions_stayWithin around).append (Case.mentionsList_stayWithin around cases)
  | .apply _ function args =>
    (function.mentions_stayWithin around).append (Expr.mentionsList_stayWithin around args)
  | .select _ receiver selection => by
    have hselection : StayWithin around [] (amid around [.value selection]) :=
      stayWithin_amid _
    exact List.append_nil receiver.binders ▸
      (receiver.mentions_stayWithin around).append hselection
  | .reference node => stayWithin_amid [.value node]
  | .binary _ _ left right =>
    (left.mentions_stayWithin around).append (right.mentions_stayWithin around)
  | .unary _ _ operand => operand.mentions_stayWithin around
  | .literal _ _ => stayWithin_nil
theorem Expr.mentionsOption_stayWithin (around : List Binder) : ∀ node : Option (Expr Name),
    StayWithin around (Expr.bindersOption node) (Expr.mentionsOption around node)
  | none => stayWithin_nil
  | some node => node.mentions_stayWithin around
theorem Expr.mentionsList_stayWithin (around : List Binder) : ∀ nodes : List (Expr Name),
    StayWithin around (Expr.bindersList nodes) (Expr.mentionsList around nodes)
  | [] => stayWithin_nil
  | node :: rest =>
    (node.mentions_stayWithin around).append (Expr.mentionsList_stayWithin around rest)
theorem Binding.mentions_stayWithin (around : List Binder) : ∀ node : Binding Name,
    StayWithin around node.binders (node.mentions around)
  | ⟨here, name, ascription, value⟩ =>
    have hascription : StayWithin around [⟨here, name⟩]
        (amid around (TypeNode.mentionsOption ascription)) := stayWithin_amid _
    hascription.append (value.mentions_stayWithin around)
theorem Binding.mentionsList_stayWithin (around : List Binder) : ∀ nodes : List (Binding Name),
    StayWithin around (Binding.bindersList nodes) (Binding.mentionsList around nodes)
  | [] => stayWithin_nil
  | node :: rest =>
    (node.mentions_stayWithin around).append (Binding.mentionsList_stayWithin around rest)
theorem Case.mentions_stayWithin (around : List Binder) : ∀ node : Case Name,
    StayWithin around node.binders (node.mentions around)
  | ⟨_, _, body⟩ =>
    ((stayWithin_amid _).append (body.mentions_stayWithin _)).enclosed
      (List.subset_append_left _ _) (List.Subset.refl _)
theorem Case.mentionsList_stayWithin (around : List Binder) : ∀ nodes : List (Case Name),
    StayWithin around (Case.bindersList nodes) (Case.mentionsList around nodes)
  | [] => stayWithin_nil
  | node :: rest =>
    (node.mentions_stayWithin around).append (Case.mentionsList_stayWithin around rest)
end

/-- The binders around a mention are local binders of the same declaration. -/
theorem Declaration.around_subset (d : Declaration Name) {mention : Mention}
    {around : List Binder} (h : (mention, around) ∈ d.mentions) : around ⊆ d.binders := by
  have hall : StayWithin [] d.binders d.mentions := by
    match d with
    | .data d => exact stayWithin_amid _
    | .binding ⟨here, name, ascription, value⟩ =>
      have hascription : StayWithin [] [] (amid [] (TypeNode.mentionsOption ascription)) :=
        stayWithin_amid _
      exact hascription.append (value.mentions_stayWithin [])
    | .function d =>
      exact ((stayWithin_amid _).append (d.body.mentions_stayWithin _)).enclosed
        (List.subset_append_left _ _) (List.Subset.refl _)
  simpa using hall _ h

end PolyFront
