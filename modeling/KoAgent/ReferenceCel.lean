import KoAgent.CelExpression

/-!
# A reference evaluator for the filter language

`referenceCel` inhabits the interface of the CEL library. It evaluates every
construct of the filters the way `Lawful` documents it, with CEL's absorption of
errors by a false conjunct, and reads its expressions from a table of texts.
-/

namespace KoAgent.ReferenceCel

open KoAgent.FilterModel KoAgent.CelExpression

set_option autoImplicit false

def noSuchOverload : Outcome := .error "no such overload"

def evalLiteral : Literal → Value
  | .int value => .int value
  | .string value => .string value
  | .bool value => .bool value
  | .other text => .other text

def isFalse : Outcome → Bool
  | .ok (.bool false) => true
  | _ => false

def isTruth : Outcome → Bool
  | .ok (.bool true) => true
  | _ => false

def evalAnd (left right : Outcome) : Outcome :=
  if isFalse left || isFalse right then .ok (.bool false)
  else if isTruth left && isTruth right then .ok (.bool true)
  else noSuchOverload

def evalNot : Outcome → Outcome
  | .ok (.bool value) => .ok (.bool !value)
  | _ => noSuchOverload

def evalCompare (function : Function) : Value → Value → Outcome
  | .int left, .int right =>
      match CelExpression.intCompare function with
      | some compare => .ok (.bool (compare left right))
      | none => noSuchOverload
  | .string left, .string right =>
      match CelExpression.stringCompare function with
      | some compare => .ok (.bool (compare left right))
      | none => noSuchOverload
  | _, _ => noSuchOverload

def evalIn : Value → Value → Outcome
  | .string value, .list values =>
      .ok (.bool (values.any fun
        | .string other => value == other
        | _ => false))
  | _, _ => noSuchOverload

def evalBinary (function : Function) (left right : Value) : Outcome :=
  match function with
  | .inList => evalIn left right
  | .ipIn => ipInVal left right
  | _ => evalCompare function left right

def evalCall (function : Function) (args : List Outcome) : Outcome :=
  match function, args with
  | .logicalAnd, [left, right] => evalAnd left right
  | .logicalNot, [value] => evalNot value
  | function, [.ok left, .ok right] => evalBinary function left right
  | _, _ => noSuchOverload

def collect : List Outcome → Except String (List Value)
  | [] => .ok []
  | .ok value :: rest => (collect rest).map fun values => value :: values
  | .error text :: _ => .error text

mutual

def evalExpr : Expr → Activation → Outcome
  | .ident name, act =>
      match act name with
      | some value => .ok value
      | none => .error ("no such attribute: " ++ name)
  | .literal value, _ => .ok (evalLiteral value)
  | .list elements, act => (collect (evalExprs elements act)).map Value.list
  | .call function args, act => evalCall function (evalExprs args act)
  | .other text, _ => .error text

def evalExprs : List Expr → Activation → List Outcome
  | [], _ => []
  | e :: rest, act => evalExpr e act :: evalExprs rest act

end

def referenceCel (table : List (String × Expr)) : Cel where
  parse := fun text =>
    match table.lookup text with
    | some e => .ok e
    | none => .error "syntax error"
  check := fun e => .ok e
  program := fun e => .ok (evalExpr e)
  eval := evalExpr

theorem collect_values (elements : List Expr) (values : List Value) (act : Activation)
    (outcomes : List.Forall₂ (fun e value => evalExpr e act = .ok value) elements values) :
    collect (evalExprs elements act) = .ok values := by
  induction outcomes with
  | nil => rfl
  | cons head _ induction => simp only [evalExprs, head, collect, induction, Except.map]

theorem eval_binary_call (function : Function) (l r : Expr) (left right : Value) (act : Activation)
    (connective : function ≠ .logicalAnd) (first : evalExpr l act = .ok left)
    (second : evalExpr r act = .ok right) :
    evalExpr (.call function [l, r]) act = evalBinary function left right := by
  simp only [evalExpr, evalExprs, first, second]
  cases function <;> first | rfl | exact absurd rfl connective

theorem any_string_contains (values : List String) (value : String) :
    ((values.map Value.string).any fun
      | .string other => value == other
      | _ => false) = values.contains value := by
  induction values with
  | nil => rfl
  | cons head rest induction =>
      rw [List.map_cons, List.any_cons, induction, List.contains_cons]

theorem reference_lawful (table : List (String × Expr)) : (referenceCel table).Lawful where
  program_eval := by
    intro e prg made
    exact (Except.ok.inj made).symm
  ident := by
    intro name act value found
    simp only [referenceCel, evalExpr, found]
  int := fun _ _ => rfl
  string := fun _ _ => rfl
  list := by
    intro elements values act outcomes
    simp only [referenceCel, evalExpr, collect_values elements values act outcomes, Except.map]
  logicalAnd := by
    intro l r left right act first second
    simp only [referenceCel] at first second
    simp only [referenceCel, evalExpr, evalExprs, first, second, evalCall]
    cases left <;> cases right <;> rfl
  logicalNot := by
    intro e value act inner
    simp only [referenceCel] at inner
    simp only [referenceCel, evalExpr, evalExprs, inner, evalCall, evalNot]
  intCompare := by
    intro function compare l r left right act found first second
    have connective : function ≠ .logicalAnd := by
      rintro rfl
      cases found
    refine (eval_binary_call function l r _ _ act connective first second).trans ?_
    cases function <;> simp_all [evalBinary, evalCompare, CelExpression.intCompare]
  stringCompare := by
    intro function compare l r left right act found first second
    have connective : function ≠ .logicalAnd := by
      rintro rfl
      cases found
    refine (eval_binary_call function l r _ _ act connective first second).trans ?_
    cases function <;> simp_all [evalBinary, evalCompare, CelExpression.stringCompare]
  inList := by
    intro l r value values act first second
    refine (eval_binary_call .inList l r _ _ act (by simp) first second).trans ?_
    simp only [evalBinary, evalIn, any_string_contains]
  ipIn := by
    intro l r left right act first second
    exact eval_binary_call .ipIn l r left right act (by simp) first second

end KoAgent.ReferenceCel
