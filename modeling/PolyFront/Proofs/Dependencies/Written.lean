import PolyFront.Front
import PolyFront.Proofs.Solutions.Runs
import PolyFront.Tree.Traverse

/-!
# Resolution only annotates

A resolved tree is the tree that was written: with the names taken away again, nothing of it
has changed.
-/

namespace PolyFront

/-! ## What was written -/

section Written

variable {α : Type}

/-- The annotation is taken away. -/
def forget (_ : α) : Id Unit := ()

def Located.written (here : Located α) : Located Unit := here.traverse forget
def TypeVarNode.written (var : TypeVarNode α) : TypeVarNode Unit := var.traverse forget
def TypeNode.written (node : TypeNode α) : TypeNode Unit := node.traverse forget
def Param.written (param : Param α) : Param Unit := param.traverse forget
def Pattern.written (pattern : Pattern α) : Pattern Unit := pattern.traverse forget
def Expr.written (expr : Expr α) : Expr Unit := expr.traverse forget
/-- The declaration without its annotations. -/
def Declaration.written (d : Declaration α) : Declaration Unit := d.traverse forget

end Written

/-! ## Runs by what they give -/

namespace Run

variable {σ α β : Type}

/-- Wherever the run ends without a fault, its result is good. -/
def Gives (run : Run σ α) (good : α → Prop) : Prop := ∀ s, run.Ends s fun a _ => good a

theorem Gives.pure {good : α → Prop} {a : α} (h : good a) :
    Gives (Pure.pure a : Run σ α) good := fun _ => Ends.pure h

theorem Gives.bind {mid : α → Prop} {good : β → Prop} {run : Run σ α} {next : α → Run σ β}
    (hrun : Gives run mid) (hnext : ∀ a, mid a → Gives (next a) good) :
    Gives (run >>= next) good :=
  fun s => Ends.bind ((hrun s).mono fun a s' ha => hnext a ha s')

theorem Gives.mono {good good' : α → Prop} {run : Run σ α} (h : Gives run good)
    (himp : ∀ a, good a → good' a) : Gives run good' :=
  fun s => (h s).mono fun a _ ha => himp a ha

/-- What comes before does not matter. -/
theorem Gives.skip {good : β → Prop} {run : Run σ α} {next : α → Run σ β}
    (hnext : ∀ a, Gives (next a) good) : Gives (run >>= next) good :=
  fun _ => Ends.bind fun a s' _ => hnext a s'

/-- Each result belongs to its item. -/
theorem Gives.mapM {f : α → Run σ β} {back : β → Id α} {items : List α}
    (h : ∀ item ∈ items, Gives (f item) fun b => back b = item) :
    Gives (items.mapM f) fun results => results.mapM back = items := by
  induction items with
  | nil => exact Gives.pure rfl
  | cons item rest ih =>
    rw [List.mapM_cons]
    refine Gives.bind (h item List.mem_cons_self) fun b hb => ?_
    refine Gives.bind (ih fun other hother => h other (List.mem_cons_of_mem _ hother)) ?_
    intro bs hbs
    refine Gives.pure ?_
    rw [List.mapM_cons, ← hb, ← hbs]
    rfl

/-- What holds of every result holds of all of them. -/
theorem Gives.mapM_all {f : α → Run σ β} {good : β → Prop} {items : List α}
    (h : ∀ item ∈ items, Gives (f item) good) :
    Gives (items.mapM f) fun results => ∀ result ∈ results, good result := by
  induction items with
  | nil => exact Gives.pure fun _ hmem => (List.not_mem_nil hmem).elim
  | cons item rest ih =>
    rw [List.mapM_cons]
    refine Gives.bind (h item List.mem_cons_self) fun b hb => ?_
    refine Gives.bind (ih fun other hother => h other (List.mem_cons_of_mem _ hother)) ?_
    exact fun bs hbs => Gives.pure (List.forall_mem_cons.2 ⟨hb, hbs⟩)

end Run

namespace Resolve

open Run

theorem withFrame_gives {α : Type} {good : α → Prop} {frame : Frame (Located Name)}
    {body : Resolve α} (hbody : Gives body good) : Gives (withFrame frame body) good :=
  Gives.skip fun _ => Gives.bind hbody fun _ ha => Gives.skip fun _ => Gives.pure ha

theorem bindLocal_gives (target : ScopeTag) (name : String) (written : Located Unit) :
    Gives (bindLocal target name written.range) fun here => here.written = written := by
  refine Gives.skip fun s => Gives.skip fun _ => ?_
  split
  · exact Gives.skip fun _ => Gives.skip fun _ => Gives.pure rfl
  · intro _ _ _ hrun
    cases hrun

theorem lookup_gives {found : Resolver → Option (Located Name)} {report : Resolve Unit}
    {record : Located Name → Resolve Unit} (written : Located Unit) :
    Gives (do
      match found (← get) with
      | some here =>
        record here
        pure (here.withRange written.range)
      | none =>
        report
        pure ⟨written.range, .nameless⟩) fun here => here.written = written := by
  refine Gives.skip fun s => ?_
  split
  · exact Gives.skip fun _ => Gives.pure rfl
  · exact Gives.skip fun _ => Gives.pure rfl

theorem resolveValue_gives (written : Located Unit) (id : QualifiedId) :
    Gives (resolveValue written.range id) fun here => here.written = written :=
  lookup_gives written

theorem resolveType_gives (written : Located Unit) (id : QualifiedId) :
    Gives (resolveType written.range id) fun here => here.written = written :=
  lookup_gives written

/-! ## Written types -/

theorem typeVar_gives (var : TypeVarNode Unit) :
    Gives (typeVar var) fun node => node.written = var := by
  refine Gives.skip fun s => ?_
  split
  · exact Gives.pure rfl
  · exact Gives.skip fun _ => Gives.pure rfl

theorem typeVars_gives (vars : List (TypeVarNode Unit)) :
    Gives (vars.mapM typeVar) fun nodes => nodes.mapM (TypeVarNode.traverse forget) = vars :=
  Gives.mapM fun var _ => typeVar_gives var

mutual
theorem typeNode_gives : ∀ written : TypeNode Unit,
    Gives (typeNode written) fun node => node.written = written
  | .quantified here binders body => by
    refine Gives.skip fun frame => withFrame_gives ?_
    refine Gives.bind (typeVars_gives binders) fun binders' hbinders => ?_
    refine Gives.bind (typeNode_gives body) fun body' hbody => Gives.pure ?_
    rw [← hbinders, ← hbody]
    rfl
  | .function here args result => by
    refine Gives.bind (typeNodes_gives args) fun args' hargs => ?_
    refine Gives.bind (typeNode_gives result) fun result' hresult => Gives.pure ?_
    rw [← hargs, ← hresult]
    rfl
  | .apply here head args => by
    refine Gives.bind (typeNode_gives head) fun head' hhead => ?_
    refine Gives.bind (typeNodes_gives args) fun args' hargs => Gives.pure ?_
    rw [← hargs, ← hhead]
    rfl
  | .reference here id => by
    refine Gives.bind (resolveType_gives here id) fun here' hhere => Gives.pure ?_
    rw [← hhere]
    rfl
  | .var node => Gives.bind (typeVar_gives node) fun _ hnode => Gives.pure (by rw [← hnode]; rfl)
theorem typeNodes_gives : ∀ written : List (TypeNode Unit),
    Gives (typeNodes written) fun nodes => TypeNode.traverseList forget nodes = written
  | [] => Gives.pure rfl
  | node :: rest => by
    refine Gives.bind (typeNode_gives node) fun node' hnode => ?_
    refine Gives.bind (typeNodes_gives rest) fun rest' hrest => Gives.pure ?_
    rw [← hnode, ← hrest]
    rfl
end

theorem ascription_gives (written : Option (TypeNode Unit)) :
    Gives (ascription written) fun node =>
      traverseOption (TypeNode.traverse forget) node = written := by
  cases written with
  | none => exact Gives.pure rfl
  | some written =>
    exact Gives.bind (typeNode_gives written) fun _ hnode => Gives.pure (by rw [← hnode]; rfl)

theorem param_gives : ∀ written : Param Unit,
    Gives (param written) fun param => param.written = written
  | ⟨here, name, type⟩ => by
    refine Gives.bind (bindLocal_gives _ _ here) fun here' hhere => ?_
    refine Gives.bind (ascription_gives type) fun type' htype => Gives.pure ?_
    rw [← hhere, ← htype]
    rfl

theorem params_gives (written : List (Param Unit)) :
    Gives (written.mapM param) fun params => params.mapM (Param.traverse forget) = written :=
  Gives.mapM fun param _ => param_gives param

theorem reference_gives : ∀ written : Reference Unit,
    Gives (reference written) fun node => node.traverse forget = written
  | ⟨here, id⟩ => by
    refine Gives.bind (resolveValue_gives here id) fun here' hhere => Gives.pure ?_
    rw [← hhere]
    rfl

/-! ## Patterns -/

mutual
theorem pattern_gives : ∀ written : Pattern Unit,
    Gives (pattern written) fun pattern => pattern.written = written
  | .alias here name inner => by
    refine Gives.bind (bindLocal_gives _ name here) fun here' hhere => ?_
    refine Gives.bind (pattern_gives inner) fun inner' hinner => Gives.pure ?_
    rw [← hhere, ← hinner]
    rfl
  | .id here name => by
    refine Gives.bind (bindLocal_gives _ name here) fun here' hhere => Gives.pure ?_
    rw [← hhere]
    rfl
  | .literal here value => Gives.pure rfl
  | .constructor here id fields => by
    refine Gives.skip fun s => ?_
    have hrest (name : Name) (kind : ScopeKind) : Gives (do
          let fields ← withScope kind (fieldPatterns fields)
          recordReference name
          pure (Pattern.constructor ⟨here.range, name⟩ id fields))
        fun pattern => pattern.written = .constructor here id fields := by
      refine Gives.bind (withFrame_gives (fieldPatterns_gives fields)) fun fields' hfields => ?_
      refine Gives.skip fun _ => Gives.pure ?_
      rw [← hfields]
      rfl
    dsimp only
    split
    · exact Gives.skip fun _ => hrest _ _
    · exact hrest _ _
theorem fieldPattern_gives : ∀ written : FieldPattern Unit,
    Gives (fieldPattern written) fun field => field.traverse forget = written
  | ⟨here, field, inner⟩ => Gives.skip fun _ => optionalPattern_gives here field inner
theorem optionalPattern_gives (here : Located Unit) (field : String) :
    ∀ inner : Option (Pattern Unit), Gives (optionalPattern here field inner)
      fun node => node.traverse forget = ⟨here, field, inner⟩
  | none => by
    refine Gives.bind (bindLocal_gives _ field here) fun here' hhere => Gives.pure ?_
    rw [← hhere]
    rfl
  | some inner => by
    refine Gives.bind (pattern_gives inner) fun inner' hinner => Gives.pure ?_
    rw [← hinner]
    rfl
theorem fieldPatterns_gives : ∀ written : List (FieldPattern Unit),
    Gives (fieldPatterns written) fun fields => FieldPattern.traverseList forget fields = written
  | [] => Gives.pure rfl
  | field :: rest => by
    refine Gives.bind (fieldPattern_gives field) fun field' hfield => ?_
    refine Gives.bind (fieldPatterns_gives rest) fun rest' hrest => Gives.pure ?_
    rw [← hfield, ← hrest]
    rfl
end

/-! ## Expressions -/

mutual
theorem expr_gives : ∀ written : Expr Unit,
    Gives (expr written) fun expr => expr.written = written
  | .block here bindings result => by
    refine withFrame_gives ?_
    refine Gives.bind (localBindings_gives bindings) fun bindings' hbindings => ?_
    refine Gives.bind (optionalExpr_gives result) fun result' hresult => Gives.pure ?_
    rw [← hbindings, ← hresult]
    rfl
  | .conditional here condition consequent alternative => by
    refine Gives.bind (expr_gives condition) fun condition' hcondition => ?_
    refine Gives.bind (expr_gives consequent) fun consequent' hconsequent => ?_
    refine Gives.bind (expr_gives alternative) fun alternative' halternative => Gives.pure ?_
    rw [← hcondition, ← hconsequent, ← halternative]
    rfl
  | .lambda here params body => by
    refine withFrame_gives ?_
    refine Gives.bind (params_gives params) fun params' hparams => ?_
    refine Gives.bind (expr_gives body) fun body' hbody => Gives.pure ?_
    rw [← hparams, ← hbody]
    rfl
  | .cases here scrutinee cases => by
    refine Gives.bind (expr_gives scrutinee) fun scrutinee' hscrutinee => ?_
    refine Gives.bind (caseList_gives cases) fun cases' hcases => Gives.pure ?_
    rw [← hscrutinee, ← hcases]
    rfl
  | .apply here function args => by
    refine Gives.bind (expr_gives function) fun function' hfunction => ?_
    refine Gives.bind (exprs_gives args) fun args' hargs => Gives.pure ?_
    rw [← hfunction, ← hargs]
    rfl
  | .select here receiver selection => by
    refine Gives.bind (expr_gives receiver) fun receiver' hreceiver => ?_
    refine Gives.bind (reference_gives selection) fun selection' hselection => Gives.pure ?_
    rw [← hreceiver, ← hselection]
    rfl
  | .reference node => by
    refine Gives.bind (reference_gives node) fun node' hnode => Gives.pure ?_
    rw [← hnode]
    rfl
  | .binary here op left right => by
    refine Gives.bind (expr_gives left) fun left' hleft => ?_
    refine Gives.bind (expr_gives right) fun right' hright => Gives.pure ?_
    rw [← hleft, ← hright]
    rfl
  | .unary here op operand => by
    refine Gives.bind (expr_gives operand) fun operand' hoperand => Gives.pure ?_
    rw [← hoperand]
    rfl
  | .literal here value => Gives.pure rfl
theorem optionalExpr_gives : ∀ written : Option (Expr Unit),
    Gives (optionalExpr written) fun node => Expr.traverseOption forget node = written
  | none => Gives.pure rfl
  | some node => Gives.bind (expr_gives node) fun _ hnode => Gives.pure (by rw [← hnode]; rfl)
theorem exprs_gives : ∀ written : List (Expr Unit),
    Gives (exprs written) fun nodes => Expr.traverseList forget nodes = written
  | [] => Gives.pure rfl
  | node :: rest => by
    refine Gives.bind (expr_gives node) fun node' hnode => ?_
    refine Gives.bind (exprs_gives rest) fun rest' hrest => Gives.pure ?_
    rw [← hnode, ← hrest]
    rfl
theorem localBinding_gives : ∀ written : Binding Unit,
    Gives (localBinding written) fun binding => binding.traverse forget = written
  | ⟨here, name, type, value⟩ => by
    refine Gives.bind (bindLocal_gives _ name here) fun here' hhere => ?_
    refine Gives.bind (ascription_gives type) fun type' htype => ?_
    refine Gives.bind (expr_gives value) fun value' hvalue => Gives.pure ?_
    rw [← hhere, ← htype, ← hvalue]
    rfl
theorem localBindings_gives : ∀ written : List (Binding Unit),
    Gives (localBindings written) fun bindings => Binding.traverseList forget bindings = written
  | [] => Gives.pure rfl
  | node :: rest => by
    refine Gives.bind (localBinding_gives node) fun node' hnode => ?_
    refine Gives.bind (localBindings_gives rest) fun rest' hrest => Gives.pure ?_
    rw [← hnode, ← hrest]
    rfl
theorem caseNode_gives : ∀ written : Case Unit,
    Gives (caseNode written) fun case => case.traverse forget = written
  | ⟨here, inner, body⟩ => by
    refine withFrame_gives ?_
    refine Gives.bind (pattern_gives inner) fun inner' hinner => ?_
    refine Gives.bind (expr_gives body) fun body' hbody => Gives.pure ?_
    rw [← hinner, ← hbody]
    rfl
theorem caseList_gives : ∀ written : List (Case Unit),
    Gives (caseList written) fun cases => Case.traverseList forget cases = written
  | [] => Gives.pure rfl
  | node :: rest => by
    refine Gives.bind (caseNode_gives node) fun node' hnode => ?_
    refine Gives.bind (caseList_gives rest) fun rest' hrest => Gives.pure ?_
    rw [← hnode, ← hrest]
    rfl
end

/-! ## Declarations -/

theorem constructorParam_gives (constructor : ConstructorName) :
    ∀ written : ConstructorParam Unit, Gives (constructorParam constructor written)
      fun param => param.traverse forget = written
  | ⟨here, name, type⟩ => by
    refine Gives.bind (typeNode_gives type) fun type' htype => Gives.pure ?_
    rw [← htype]
    rfl

theorem constructorParams_gives (constructor : ConstructorName)
    (written : List (ConstructorParam Unit)) :
    Gives (written.mapM (constructorParam constructor)) fun params =>
      params.mapM (ConstructorParam.traverse forget) = written :=
  Gives.mapM fun param _ => constructorParam_gives _ param

theorem constructor_gives (data : QualifiedName) : ∀ written : Constructor Unit,
    Gives (constructor data written) fun node => node.traverse forget = written
  | ⟨here, name, params, result⟩ => by
    refine Gives.skip fun _ => Gives.skip fun _ => withFrame_gives ?_
    refine Gives.bind (constructorParams_gives _ params) fun params' hparams => ?_
    refine Gives.bind (ascription_gives result) fun result' hresult => Gives.pure ?_
    rw [← hparams, ← hresult]
    rfl

theorem constructors_gives (data : QualifiedName) (written : List (Constructor Unit)) :
    Gives (written.mapM (constructor data)) fun nodes =>
      nodes.mapM (Constructor.traverse forget) = written :=
  Gives.mapM fun node _ => constructor_gives _ node

theorem data_gives : ∀ written : Data Unit,
    Gives (data written) fun node => node.traverse forget = written
  | ⟨here, name, typeParams, constructors⟩ => by
    refine Gives.skip fun ns => Gives.skip fun frame => withFrame_gives ?_
    refine Gives.bind (typeVars_gives typeParams) fun typeParams' htypeParams => ?_
    refine Gives.bind (constructors_gives _ constructors) fun constructors' hconstructors => ?_
    refine Gives.pure ?_
    rw [← htypeParams, ← hconstructors]
    rfl

theorem topLevelBinding_gives : ∀ written : Binding Unit,
    Gives (topLevelBinding written) fun node => node.traverse forget = written
  | ⟨here, name, type, value⟩ => by
    refine Gives.skip fun ns => withFrame_gives ?_
    refine Gives.bind (ascription_gives type) fun type' htype => ?_
    refine Gives.bind (expr_gives value) fun value' hvalue => Gives.pure ?_
    rw [← htype, ← hvalue]
    rfl

theorem functionBinding_gives : ∀ written : FunctionBinding Unit,
    Gives (functionBinding written) fun node => node.traverse forget = written
  | ⟨here, name, typeParams, params, result, body⟩ => by
    refine Gives.skip fun ns => Gives.skip fun frame => withFrame_gives (withFrame_gives ?_)
    refine Gives.bind (typeVars_gives typeParams) fun typeParams' htypeParams => ?_
    refine Gives.bind (params_gives params) fun params' hparams => ?_
    refine Gives.bind (ascription_gives result) fun result' hresult => ?_
    refine Gives.bind (expr_gives body) fun body' hbody => Gives.pure ?_
    rw [← htypeParams, ← hparams, ← hresult, ← hbody]
    rfl

/-- A resolved declaration is the declaration that was written. -/
theorem declaration_gives (written : Declaration Unit) :
    Gives (declaration written) fun node => node.written = written := by
  refine Gives.skip fun _ => ?_
  cases written with
  | data d =>
    exact Gives.bind (data_gives d) fun _ hd => Gives.pure (by rw [← hd]; rfl)
  | binding d =>
    exact Gives.bind (topLevelBinding_gives d) fun _ hd => Gives.pure (by rw [← hd]; rfl)
  | function d =>
    exact Gives.bind (functionBinding_gives d) fun _ hd => Gives.pure (by rw [← hd]; rfl)

end Resolve

end PolyFront
