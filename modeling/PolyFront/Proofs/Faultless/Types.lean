import PolyFront.Checking.Patterns
import PolyFront.Proofs.Faultless.Kinds

/-!
# Types of values and patterns without faults

The parts that the checking of expressions is made of: what is looked up, solved, reported
and bound for names, parameters, operands and patterns.
-/

namespace PolyFront

open Run

namespace Check

open Checker

variable {shape : List ScopeKind} {kind : ScopeKind}

theorem typed_isType (here : Located Name) (type : Ty) : (typed here type).info.IsType := rfl

/-! ## Types of values -/

theorem freshType_keeps : Keeps (At (kind :: shape)) freshType fun _ => True :=
  lift_keeps (Solve.freshType_keeps _)

theorem substituteType_keeps (type : Ty) :
    Keeps (At shape) (liftM (Solve.substituteType type) : Check Ty) fun _ => True :=
  lift_keeps (Solve.substituteType_keeps type)

theorem checkSubType_keeps (sub sup : Ty) :
    Keeps (At (kind :: shape)) (liftM (Solve.checkSubType sub sup) : Check Bool)
      fun _ => True :=
  lift_keeps (Solve.checkSubType_keeps sub sup)

theorem putValue_keeps (key : String) (item : Located Attributes) :
    Keeps (At (kind :: shape)) (liftM (Solve.putValue key item) : Check Unit) fun _ => True :=
  lift_keeps (Solve.putValue_keeps key item)

theorem reportMismatch_keeps (range : Range) (expected actual : Ty) :
    Keeps (At shape) (reportMismatch range expected actual) fun _ => True := by
  refine Keeps.bind (substituteType_keeps _) fun _ _ => ?_
  exact Keeps.bind (substituteType_keeps _) fun _ _ => report_keeps _ _

theorem reportOperand_keeps (range : Range) (expected : Operand) (actual : Ty) :
    Keeps (At shape) (reportOperand range expected actual) fun _ => True :=
  Keeps.bind (substituteType_keeps _) fun _ _ => report_keeps _ _

theorem requireUsable_keeps (range : Range) (expected actual : Ty) :
    Keeps (At (kind :: shape)) (requireUsable range expected actual) fun _ => True :=
  Keeps.bind (checkSubType_keeps _ _) fun _ _ => Keeps.when (reportMismatch_keeps _ _ _)

theorem requireAccepting_keeps (range : Range) (expected written : Ty) :
    Keeps (At (kind :: shape)) (requireAccepting range expected written) fun _ => True :=
  Keeps.bind (checkSubType_keeps _ _) fun _ _ => Keeps.when (reportMismatch_keeps _ _ _)

theorem acceptsOperand_keeps (operand : Operand) (type : Ty) :
    Keeps (At (kind :: shape)) (acceptsOperand operand type) fun _ => True :=
  Keeps.anyM fun _ _ => checkSubType_keeps _ _

theorem boundType?_keeps (key : String) : Keeps (At shape) (boundType? key) fun _ => True :=
  Keeps.bind Keeps.get fun _ _ => Keeps.pure True.intro

theorem typeOfName_keeps (name : Name) :
    Keeps (At (kind :: shape)) (typeOfName name) fun _ => True := by
  refine Keeps.ite (fun _ => freshType_keeps) fun _ => ?_
  refine Keeps.bind (boundType?_keeps _) fun bound _ => ?_
  cases bound with
  | some type => exact substituteType_keeps type
  | none => exact freshType_keeps

theorem settlePlaceholder_keeps (key : String) (type : Ty) :
    Keeps (At shape) (settlePlaceholder key type) fun _ => True := by
  refine Keeps.bind (boundType?_keeps _) fun bound _ => ?_
  cases bound with
  | none => exact Keeps.pure True.intro
  | some bound =>
    refine Keeps.bind (substituteType_keeps _) fun type _ => ?_
    refine Keeps.bind (substituteType_keeps _) fun bound _ => ?_
    split
    · refine Keeps.when (Keeps.modify fun s hs => ?_)
      rw [At, Store.solveTypeOf_stack]
      exact hs
    · exact Keeps.pure True.intro

theorem bindValue_keeps (text : String) (here : Located Attributes) :
    Keeps (At (kind :: shape)) (bindValue text here) fun _ => True := by
  refine Keeps.ite (fun _ => ?_) fun _ => putValue_keeps _ _
  dsimp only
  split
  · refine Keeps.bind (settlePlaceholder_keeps _ _) fun _ _ => ?_
    exact Keeps.bind (putValue_keeps _ _) fun _ _ => putValue_keeps _ _
  · exact Keeps.bind (putValue_keeps _ _) fun _ _ => putValue_keeps _ _

theorem ascriptionOrFresh_keeps {node : Option (TypeNode Name)}
    (h : TypeNode.NamedOption node) :
    Keeps (At (kind :: shape)) (ascriptionOrFresh node) fun _ => True := by
  cases node with
  | some written =>
    exact Keeps.bind (ascription_keeps (h written rfl)) fun _ _ => Keeps.pure True.intro
  | none => exact Keeps.bind freshType_keeps fun _ _ => Keeps.pure True.intro

theorem inferParam_keeps {param : Param Name} (h : param.Named) :
    Keeps (At (kind :: shape)) (inferParam param) fun param' => param'.here.info.IsType := by
  refine Keeps.bind (ascriptionOrFresh_keeps h) fun _ _ => ?_
  exact Keeps.bind (putValue_keeps _ _) fun _ _ => Keeps.pure rfl

theorem checkParam_keeps {param : Param Name} (h : param.Named) (expected : Ty) :
    Keeps (At (kind :: shape)) (checkParam param expected)
      fun param' => param'.here.info.IsType := by
  have hrest (pair : Option (TypeNode Attributes) × Ty) :
      Keeps (At (kind :: shape)) (do
        Solve.putValue param.name (typed param.here pair.2)
        pure ⟨typed param.here pair.2, param.name, pair.1⟩ : Check (Param Attributes))
        fun param' => param'.here.info.IsType :=
    Keeps.bind (putValue_keeps _ _) fun _ _ => Keeps.pure rfl
  unfold checkParam
  split
  · rename_i node hnode
    refine Keeps.bind (ascription_keeps (h node hnode)) fun pair _ => ?_
    exact Keeps.bind (requireAccepting_keeps _ _ _) fun _ _ => hrest (some pair.1, pair.2)
  · exact hrest (none, expected)

theorem inferReference_keeps (node : Reference Name) :
    Keeps (At (kind :: shape)) (inferReference node) fun node' => node'.here.info.IsType :=
  Keeps.bind (typeOfName_keeps _) fun _ _ => Keeps.pure rfl

/-! ## Types of patterns -/

theorem instantiateConstructor_keeps (type : Ty) :
    Keeps (At (kind :: shape)) (instantiateConstructor type) fun _ => True := by
  unfold instantiateConstructor
  split
  · exact Keeps.bind (lift_keeps (Solve.freshBinders_keeps _ _)) fun _ _ =>
      Keeps.pure True.intro
  · exact Keeps.pure True.intro

theorem matchConstructor_keeps (here : Located Name) (expected : Ty) :
    Keeps (At (kind :: shape)) (matchConstructor here expected) fun _ => True := by
  refine Keeps.bind (typeOfName_keeps _) fun _ _ => ?_
  refine Keeps.bind (instantiateConstructor_keeps _) fun _ _ => ?_
  exact Keeps.bind (requireUsable_keeps _ _ _) fun _ _ => Keeps.pure True.intro

theorem fieldType_keeps (owner : Name) (field : String) (assignment : Table String Ty) :
    Keeps (At (kind :: shape)) (fieldType owner field assignment) fun _ => True := by
  refine Keeps.bind Keeps.get fun s _ => ?_
  dsimp only
  split
  · exact Keeps.pure True.intro
  · exact freshType_keeps

mutual
theorem checkPattern_keeps (kind : ScopeKind) (shape : List ScopeKind) :
    ∀ (node : Pattern Name) (expected : Ty),
      Keeps (At (kind :: shape)) (checkPattern node expected) fun _ => True
  | .id here name, expected =>
    Keeps.bind (putValue_keeps _ _) fun _ _ => Keeps.pure True.intro
  | .alias here name inner, expected => by
    refine Keeps.bind (checkPattern_keeps kind shape inner expected) fun _ _ => ?_
    exact Keeps.bind (putValue_keeps _ _) fun _ _ => Keeps.pure True.intro
  | .literal here value, expected =>
    Keeps.bind (requireUsable_keeps _ _ _) fun _ _ => Keeps.pure True.intro
  | .constructor here id fields, expected => by
    refine Keeps.bind (matchConstructor_keeps _ _) fun found _ => ?_
    exact Keeps.bind (checkFieldPatterns_keeps kind shape _ _ fields) fun _ _ =>
      Keeps.pure True.intro
theorem checkFieldPattern_keeps (kind : ScopeKind) (shape : List ScopeKind) (owner : Name)
    (assignment : Table String Ty) :
    ∀ node : FieldPattern Name,
      Keeps (At (kind :: shape)) (checkFieldPattern owner assignment node) fun _ => True
  | ⟨here, field, inner⟩ =>
    Keeps.bind (fieldType_keeps _ _ _) fun _ _ =>
      checkOptionalPattern_keeps kind shape (typed_isType here _) field inner
theorem checkOptionalPattern_keeps (kind : ScopeKind) (shape : List ScopeKind)
    {here : Located Attributes} (hhere : here.info.IsType) (field : String) :
    ∀ inner : Option (Pattern Name),
      Keeps (At (kind :: shape)) (checkOptionalPattern here field inner) fun _ => True
  | none => Keeps.bind (putValue_keeps _ _) fun _ _ => Keeps.pure True.intro
  | some inner => by
    refine Keeps.bind (typeOf_keeps hhere) fun type _ => ?_
    exact Keeps.bind (checkPattern_keeps kind shape inner type) fun _ _ =>
      Keeps.pure True.intro
theorem checkFieldPatterns_keeps (kind : ScopeKind) (shape : List ScopeKind) (owner : Name)
    (assignment : Table String Ty) :
    ∀ fields : List (FieldPattern Name),
      Keeps (At (kind :: shape)) (checkFieldPatterns owner assignment fields) fun _ => True
  | [] => Keeps.pure True.intro
  | field :: rest => by
    refine Keeps.bind (checkFieldPattern_keeps kind shape owner assignment field) fun _ _ => ?_
    exact Keeps.bind (checkFieldPatterns_keeps kind shape owner assignment rest) fun _ _ =>
      Keeps.pure True.intro
end

end Check

end PolyFront
