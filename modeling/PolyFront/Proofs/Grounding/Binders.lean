import PolyFront.Proofs.Dependencies.Groups
import PolyFront.Proofs.Dependencies.Written
import PolyFront.Proofs.Naming.Slots

/-!
# Binders are named variables

Resolution looks a quantifier's binder up like every other variable, in the frame that was pushed
for the quantifier.  What it finds there is the binder itself, or one of the same name, so that the
binders of a resolved tree are named variables.
-/

namespace PolyFront

open Run

/-- The node is that of a variable that is introduced. -/
def TypeVarNode.Binds (var : TypeVarNode Name) : Prop :=
  ∃ quantifier name, var.here.info = .typeVar quantifier name

mutual
/-- The quantifiers in the written type bind named variables. -/
def TypeNode.Binds : TypeNode Name → Prop
  | .quantified _ binders body => (∀ var ∈ binders, var.Binds) ∧ body.Binds
  | .function _ args result => TypeNode.BindsList args ∧ result.Binds
  | .apply _ head args => head.Binds ∧ TypeNode.BindsList args
  | .reference _ _ => True
  | .var _ => True
def TypeNode.BindsList : List (TypeNode Name) → Prop
  | [] => True
  | node :: rest => node.Binds ∧ TypeNode.BindsList rest
end

/-- A type that may be left out. -/
def TypeNode.BindsOption (node : Option (TypeNode Name)) : Prop :=
  ∀ written, node = some written → written.Binds

def Param.Binds (param : Param Name) : Prop := TypeNode.BindsOption param.ascription

mutual
/-- The quantifiers in the types that are written in an expression bind named variables. -/
def Expr.Binds : Expr Name → Prop
  | .block _ bindings result => Binding.BindsList bindings ∧ Expr.BindsOption result
  | .conditional _ condition consequent alternative =>
    condition.Binds ∧ consequent.Binds ∧ alternative.Binds
  | .lambda _ params body => (∀ param ∈ params, param.Binds) ∧ body.Binds
  | .cases _ scrutinee cases => scrutinee.Binds ∧ Case.BindsList cases
  | .apply _ function args => function.Binds ∧ Expr.BindsList args
  | .select _ receiver _ => receiver.Binds
  | .reference _ => True
  | .binary _ _ left right => left.Binds ∧ right.Binds
  | .unary _ _ operand => operand.Binds
  | .literal _ _ => True
def Expr.BindsOption : Option (Expr Name) → Prop
  | none => True
  | some expr => expr.Binds
def Expr.BindsList : List (Expr Name) → Prop
  | [] => True
  | expr :: rest => expr.Binds ∧ Expr.BindsList rest
def Binding.Binds : Binding Name → Prop
  | ⟨_, _, ascription, value⟩ => TypeNode.BindsOption ascription ∧ value.Binds
def Binding.BindsList : List (Binding Name) → Prop
  | [] => True
  | binding :: rest => binding.Binds ∧ Binding.BindsList rest
def Case.Binds : Case Name → Prop
  | ⟨_, _, body⟩ => body.Binds
def Case.BindsList : List (Case Name) → Prop
  | [] => True
  | case :: rest => case.Binds ∧ Case.BindsList rest
end

def Constructor.Binds (node : Constructor Name) : Prop :=
  (∀ param ∈ node.params, param.ascription.Binds) ∧ TypeNode.BindsOption node.result

def Data.Binds (node : Data Name) : Prop :=
  (∀ var ∈ node.typeParams, var.Binds) ∧ ∀ constructor ∈ node.constructors, constructor.Binds

def FunctionBinding.Binds (node : FunctionBinding Name) : Prop :=
  (∀ var ∈ node.typeParams, var.Binds) ∧ (∀ param ∈ node.params, param.Binds) ∧
    TypeNode.BindsOption node.result ∧ node.body.Binds

def Declaration.Binds : Declaration Name → Prop
  | .data d => d.Binds
  | .binding d => d.Binds
  | .function d => d.Binds

namespace Resolve

variable {s : Resolver}

/-! ## Frames of binders -/

/-- A named variable is found under the text. -/
def FindsVar (found : Option (Located Name)) : Prop :=
  ∃ here quantifier name, found = some here ∧ here.info = .typeVar quantifier name

/-- A variable is bound in a frame that binds nothing but variables. -/
theorem defineType_binds {frame : Frame (Located Name)}
    (hframe : ∀ key, frame.type? key = none ∨ FindsVar (frame.type? key))
    (var : TypeVarNode Unit) :
    Gives (defineType frame var.name ⟨var.here.range, var.binderName⟩) fun frame' =>
      (∀ key, frame'.type? key = none ∨ FindsVar (frame'.type? key)) ∧
        FindsVar (frame'.type? var.name) ∧
        ∀ key, FindsVar (frame.type? key) → FindsVar (frame'.type? key) := by
  unfold defineType
  split
  · rename_i existing hfound
    refine Gives.skip fun _ => Gives.pure ⟨hframe, (hframe var.name).resolve_left ?_, fun _ h => h⟩
    rw [hfound]
    exact nofun
  · have hself : FindsVar (some (⟨var.here.range, var.binderName⟩ : Located Name)) :=
      ⟨_, _, _, rfl, rfl⟩
    have hput : ∀ key, (frame.putType var.name ⟨var.here.range, var.binderName⟩).type? key =
        if key = var.name then some ⟨var.here.range, var.binderName⟩ else frame.type? key :=
      fun key => Frame.type?_putType _ _
    refine Gives.pure ⟨fun key => ?_, ?_, fun key hkey => ?_⟩
    · rw [hput]
      split
      · exact .inr hself
      · exact hframe key
    · rw [hput, if_pos rfl]
      exact hself
    · rw [hput]
      split
      · exact hself
      · exact hkey

/-- The frame of some binders binds each of them to a named variable. -/
theorem frameOfBinders_binds (kind : ScopeKind) (binders : List (TypeVarNode Unit)) :
    Gives (frameOfBinders kind binders) fun frame =>
      ∀ var ∈ binders, FindsVar (frame.type? var.name) := by
  have hfold : ∀ (binders : List (TypeVarNode Unit)) (frame : Frame (Located Name)),
      (∀ key, frame.type? key = none ∨ FindsVar (frame.type? key)) →
      Gives (binders.foldlM (fun frame var =>
        defineType frame var.name ⟨var.here.range, var.binderName⟩) frame) fun frame' =>
          (∀ var ∈ binders, FindsVar (frame'.type? var.name)) ∧
            ∀ key, FindsVar (frame.type? key) → FindsVar (frame'.type? key) := by
    intro binders
    induction binders with
    | nil => exact fun frame _ => Gives.pure ⟨fun _ h => (List.not_mem_nil h).elim, fun _ h => h⟩
    | cons var rest ih =>
      intro frame hframe
      rw [List.foldlM_cons]
      refine Gives.bind (defineType_binds hframe var) fun frame₁ ⟨hframe₁, hself, hkeeps⟩ => ?_
      refine (ih frame₁ hframe₁).mono fun frame₂ ⟨hrest, hkeeps'⟩ => ⟨fun other hother => ?_,
        fun key hkey => hkeeps' key (hkeeps key hkey)⟩
      rcases List.mem_cons.1 hother with rfl | hother
      · exact hkeeps' _ hself
      · exact hrest other hother
  refine (hfold binders (Frame.empty kind) fun key => .inl ?_).mono fun _ h => h.1
  exact Frame.slot?_empty kind (.type key)

/-- Work inside of a frame whose binders are found. -/
theorem withFrame_binds {α : Type} {good : α → Prop} {frame : Frame (Located Name)}
    {body : Resolve α} {binders : List (TypeVarNode Unit)}
    (hframe : ∀ var ∈ binders, FindsVar (frame.type? var.name))
    (hbody : ∀ s : Resolver, (∀ var ∈ binders, FindsVar (s.stack.type? var.name)) →
      Ends body s fun a _ => good a) : Gives (withFrame frame body) good := by
  intro s
  refine Ends.bind (Ends.modify (Ends.bind ((hbody _ fun var hvar => ?_).mono fun a s₁ ha => ?_)))
  · obtain ⟨here, quantifier, name, hfound, hname⟩ := hframe var hvar
    refine ⟨here, quantifier, name, ?_, hname⟩
    show Option.or (List.findSome? _ (frame :: s.stack.frames)) _ = _
    rw [List.findSome?_cons, hfound]
    rfl
  · exact Ends.bind fun _ _ _ => Ends.pure ha

/-- Binders that are found are introduced. -/
theorem typeVars_bind {s : Resolver} : ∀ {binders : List (TypeVarNode Unit)},
    (∀ var ∈ binders, FindsVar (s.stack.type? var.name)) →
    Ends (binders.mapM typeVar) s fun vars s' => s' = s ∧ ∀ var ∈ vars, var.Binds
  | [], _ => Ends.pure ⟨rfl, fun _ h => (List.not_mem_nil h).elim⟩
  | var :: rest, h => by
    obtain ⟨here, quantifier, name, hfound, hname⟩ := h var List.mem_cons_self
    rw [List.mapM_cons]
    refine Ends.bind (Ends.bind (Ends.get ?_))
    rw [hfound]
    refine Ends.pure (Ends.bind ((typeVars_bind fun other hother =>
      h other (List.mem_cons_of_mem _ hother)).mono ?_))
    rintro vars _ ⟨rfl, hvars⟩
    refine Ends.pure ⟨rfl, fun other hother => ?_⟩
    rcases List.mem_cons.1 hother with rfl | hother
    · exact ⟨quantifier, name, hname⟩
    · exact hvars other hother

/-! ## Types and expressions -/

mutual
theorem typeNode_binds : ∀ node : TypeNode Unit, Gives (typeNode node) TypeNode.Binds
  | .quantified here binders body => by
    refine Gives.bind (frameOfBinders_binds .quantifiedType binders) fun frame hframe => ?_
    refine withFrame_binds hframe fun s hs => Ends.bind ((typeVars_bind hs).mono ?_)
    rintro vars _ ⟨rfl, hvars⟩
    exact Ends.bind ((typeNode_binds body _).mono fun _ _ hbody => Ends.pure ⟨hvars, hbody⟩)
  | .function here args result =>
    Gives.bind (typeNodes_binds args) fun _ hargs =>
      Gives.bind (typeNode_binds result) fun _ hresult => Gives.pure ⟨hargs, hresult⟩
  | .apply here head args =>
    Gives.bind (typeNode_binds head) fun _ hhead =>
      Gives.bind (typeNodes_binds args) fun _ hargs => Gives.pure ⟨hhead, hargs⟩
  | .reference here id => Gives.skip fun _ => Gives.pure True.intro
  | .var node => Gives.skip fun _ => Gives.pure True.intro
theorem typeNodes_binds : ∀ nodes : List (TypeNode Unit), Gives (typeNodes nodes) TypeNode.BindsList
  | [] => Gives.pure True.intro
  | node :: rest =>
    Gives.bind (typeNode_binds node) fun _ hnode =>
      Gives.bind (typeNodes_binds rest) fun _ hrest => Gives.pure ⟨hnode, hrest⟩
end

theorem ascription_binds (node : Option (TypeNode Unit)) :
    Gives (ascription node) TypeNode.BindsOption := by
  cases node with
  | none => exact Gives.pure nofun
  | some written =>
    refine Gives.bind (typeNode_binds written) fun node hnode => Gives.pure fun _ heq => ?_
    exact Option.some.inj heq ▸ hnode

theorem param_binds (node : Param Unit) : Gives (param node) Param.Binds :=
  Gives.skip fun _ => Gives.bind (ascription_binds node.ascription) fun _ h => Gives.pure h

theorem withScope_binds {α : Type} {good : α → Prop} {kind : ScopeKind} {body : Resolve α}
    (h : Gives body good) : Gives (withScope kind body) good := withFrame_gives h

mutual
theorem expr_binds : ∀ e : Expr Unit, Gives (expr e) Expr.Binds
  | .block _ bindings result => withScope_binds <|
    Gives.bind (localBindings_binds bindings) fun _ hbindings =>
      Gives.bind (optionalExpr_binds result) fun _ hresult => Gives.pure ⟨hbindings, hresult⟩
  | .conditional _ condition consequent alternative =>
    Gives.bind (expr_binds condition) fun _ hcondition =>
      Gives.bind (expr_binds consequent) fun _ hconsequent =>
        Gives.bind (expr_binds alternative) fun _ halternative =>
          Gives.pure ⟨hcondition, hconsequent, halternative⟩
  | .lambda _ _ body => withScope_binds <|
    Gives.bind (Gives.mapM_all fun node _ => param_binds node) fun _ hparams =>
      Gives.bind (expr_binds body) fun _ hbody => Gives.pure ⟨hparams, hbody⟩
  | .cases _ scrutinee cases =>
    Gives.bind (expr_binds scrutinee) fun _ hscrutinee =>
      Gives.bind (caseList_binds cases) fun _ hcases => Gives.pure ⟨hscrutinee, hcases⟩
  | .apply _ function args =>
    Gives.bind (expr_binds function) fun _ hfunction =>
      Gives.bind (exprs_binds args) fun _ hargs => Gives.pure ⟨hfunction, hargs⟩
  | .select _ receiver _ =>
    Gives.bind (expr_binds receiver) fun _ hreceiver =>
      Gives.skip fun _ => Gives.pure hreceiver
  | .reference _ => Gives.skip fun _ => Gives.pure True.intro
  | .binary _ _ left right =>
    Gives.bind (expr_binds left) fun _ hleft =>
      Gives.bind (expr_binds right) fun _ hright => Gives.pure ⟨hleft, hright⟩
  | .unary _ _ operand => Gives.bind (expr_binds operand) fun _ hoperand => Gives.pure hoperand
  | .literal _ _ => Gives.pure True.intro
theorem optionalExpr_binds : ∀ e : Option (Expr Unit), Gives (optionalExpr e) Expr.BindsOption
  | none => Gives.pure True.intro
  | some e => Gives.bind (expr_binds e) fun _ h => Gives.pure h
theorem exprs_binds : ∀ es : List (Expr Unit), Gives (exprs es) Expr.BindsList
  | [] => Gives.pure True.intro
  | e :: rest =>
    Gives.bind (expr_binds e) fun _ he =>
      Gives.bind (exprs_binds rest) fun _ hrest => Gives.pure ⟨he, hrest⟩
theorem localBinding_binds : ∀ node : Binding Unit, Gives (localBinding node) Binding.Binds
  | ⟨_, _, type, value⟩ =>
    Gives.skip fun _ => Gives.bind (ascription_binds type) fun _ htype =>
      Gives.bind (expr_binds value) fun _ hvalue => Gives.pure ⟨htype, hvalue⟩
theorem localBindings_binds : ∀ nodes : List (Binding Unit),
    Gives (localBindings nodes) Binding.BindsList
  | [] => Gives.pure True.intro
  | node :: rest =>
    Gives.bind (localBinding_binds node) fun _ hnode =>
      Gives.bind (localBindings_binds rest) fun _ hrest => Gives.pure ⟨hnode, hrest⟩
theorem caseNode_binds : ∀ node : Case Unit, Gives (caseNode node) Case.Binds
  | ⟨_, _, body⟩ => withScope_binds <|
    Gives.skip fun _ => Gives.bind (expr_binds body) fun _ hbody => Gives.pure hbody
theorem caseList_binds : ∀ nodes : List (Case Unit), Gives (caseList nodes) Case.BindsList
  | [] => Gives.pure True.intro
  | node :: rest =>
    Gives.bind (caseNode_binds node) fun _ hnode =>
      Gives.bind (caseList_binds rest) fun _ hrest => Gives.pure ⟨hnode, hrest⟩
end

/-! ## Declarations -/

theorem constructorParam_binds (name : ConstructorName) (node : ConstructorParam Unit) :
    Gives (constructorParam name node) fun param => param.ascription.Binds :=
  Gives.bind (typeNode_binds node.ascription) fun _ h => Gives.pure h

theorem constructor_binds (name : QualifiedName) (node : Constructor Unit) :
    Gives (constructor name node) Constructor.Binds :=
  Gives.skip fun _ => Gives.skip fun _ => withScope_binds <|
    Gives.bind (Gives.mapM_all fun param _ => constructorParam_binds _ param)
      fun _ hparams => Gives.bind (ascription_binds node.result) fun _ hresult =>
        Gives.pure ⟨hparams, hresult⟩

theorem data_binds (node : Data Unit) : Gives (data node) Data.Binds := by
  refine Gives.skip fun ns => Gives.bind (frameOfBinders_binds _ node.typeParams)
    fun frame hframe => withFrame_binds hframe fun s hs => Ends.bind ((typeVars_bind hs).mono ?_)
  rintro vars _ ⟨rfl, hvars⟩
  exact Ends.bind ((Gives.mapM_all (fun inner _ => constructor_binds _ inner) _).mono
    fun _ _ hconstructors => Ends.pure ⟨hvars, hconstructors⟩)

theorem topLevelBinding_binds (node : Binding Unit) : Gives (topLevelBinding node) Binding.Binds :=
  Gives.skip fun _ => withScope_binds <|
    Gives.bind (ascription_binds node.ascription) fun _ htype =>
      Gives.bind (expr_binds node.value) fun _ hvalue => Gives.pure ⟨htype, hvalue⟩

theorem functionBinding_binds (node : FunctionBinding Unit) :
    Gives (functionBinding node) FunctionBinding.Binds := by
  refine Gives.skip fun ns => Gives.bind (frameOfBinders_binds _ node.typeParams)
    fun frame hframe => withFrame_binds hframe fun s hs => ?_
  refine Ends.bind (Ends.modify (Ends.bind (Ends.bind ((typeVars_bind ?_).mono ?_))))
  · intro var hvar
    obtain ⟨here, quantifier, name, hfound, hname⟩ := hs var hvar
    refine ⟨here, quantifier, name, ?_, hname⟩
    show Option.or (List.findSome? _ (Frame.empty .lambda :: s.stack.frames)) _ = _
    have hempty : (Frame.empty .lambda : Frame (Located Name)).type? var.name = none :=
      Frame.slot?_empty .lambda (.type var.name)
    rw [List.findSome?_cons, hempty]
    exact hfound
  · rintro vars _ ⟨rfl, hvars⟩
    refine Ends.bind ((Gives.mapM_all (fun inner _ => param_binds inner) _).mono
      fun _ s₁ hparams => ?_)
    refine Ends.bind ((ascription_binds node.result s₁).mono fun _ s₂ hresult => ?_)
    refine Ends.bind ((expr_binds node.body s₂).mono fun _ s₃ hbody => ?_)
    refine Ends.pure (Ends.bind fun _ _ _ => Ends.pure ?_)
    exact ⟨hvars, hparams, hresult, hbody⟩

theorem declaration_binds (node : Declaration Unit) :
    Gives (declaration node) Declaration.Binds := by
  refine Gives.skip fun _ => ?_
  cases node with
  | data d => exact Gives.bind (data_binds d) fun _ h => Gives.pure h
  | binding d => exact Gives.bind (topLevelBinding_binds d) fun _ h => Gives.pure h
  | function d => exact Gives.bind (functionBinding_binds d) fun _ h => Gives.pure h

theorem namespaceNode_binds (ns : Namespace Unit) :
    Gives (namespaceNode ns) fun resolved => ∀ group ∈ resolved.groups, ∀ d ∈ group, d.Binds := by
  refine Gives.skip fun _ => Gives.skip fun _ => Gives.skip fun _ => ?_
  refine Gives.bind (Gives.mapM_all fun node _ => declaration_binds node) fun nodes hnodes => ?_
  refine Gives.skip fun _ => Gives.skip fun _ => Gives.skip fun _ => Gives.pure ?_
  exact fun group hgroup node hnode => hnodes node (DeclarationGraph.mem_of_mem_groups hgroup hnode)

end Resolve

end PolyFront
