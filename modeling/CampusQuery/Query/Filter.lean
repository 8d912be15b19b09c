import CampusQuery.Number.Layout
import CampusQuery.Query.Pattern

namespace CampusQuery

inductive Connective where
  | and
  | or
deriving DecidableEq, Repr

def Connective.name : Connective → String
  | and => "AND"
  | or => "OR"

inductive Comparison where
  | less
  | greater
  | equal
deriving DecidableEq, Repr

namespace Comparison

def name : Comparison → String
  | less => "LT"
  | greater => "GT"
  | equal => "EQ"

/-- With a NaN on either side nothing holds. -/
def holds : Comparison → Binary64 → Binary64 → Bool
  | less, x, y => x.lt y
  | greater, x, y => y.lt x
  | equal, x, y => x.same y

end Comparison

inductive Filter where
  | all
  | connect (op : Connective) (operands : List Filter)
  | compare (op : Comparison) (field : String) (literal : Binary64)
  | like (field : String) (pattern : Pattern)
  | not (operand : Filter)
deriving Repr

namespace Filter

theorem induction {motive : Filter → Prop} (all : motive .all)
    (connect : ∀ op operands, (∀ f ∈ operands, motive f) → motive (.connect op operands))
    (compare : ∀ op field literal, motive (.compare op field literal))
    (like : ∀ field pattern, motive (.like field pattern))
    (not : ∀ operand, motive operand → motive (.not operand)) : ∀ f, motive f
  | .all => all
  | .connect op operands => connect op operands fun f _ =>
      induction all connect compare like not f
  | .compare op field literal => compare op field literal
  | .like field pattern => like field pattern
  | .not operand => not operand (induction all connect compare like not operand)

def isAll : Filter → Bool
  | all => true
  | _ => false

mutual

def fields : Filter → List String
  | all => []
  | connect _ operands => fieldsOf operands
  | compare _ field _ => [field]
  | like field _ => [field]
  | not operand => fields operand

def fieldsOf : List Filter → List String
  | [] => []
  | f :: fs => fields f ++ fieldsOf fs

end

mutual

def text : Filter → String
  | all => "*"
  | connect op operands => "(" ++ s!" {op.name} ".intercalate (textsOf operands) ++ ")"
  | compare op field literal => s!"{field} {op.name} {Layout.display.render literal}"
  | like field pattern => s!"{field} IS {pattern.text}"
  | not operand => s!"NOT {text operand}"

def textsOf : List Filter → List String
  | [] => []
  | f :: fs => text f :: textsOf fs

end

mutual

def same : Filter → Filter → Bool
  | all, all => true
  | connect op fs, connect op' gs => op == op' && sameAll fs gs
  | compare op field x, compare op' field' y => op == op' && field == field' && x.same y
  | like field p, like field' p' => field == field' && p == p'
  | not f, not g => same f g
  | _, _ => false

def sameAll : List Filter → List Filter → Bool
  | [], [] => true
  | f :: fs, g :: gs => same f g && sameAll fs gs
  | _, _ => false

end

end Filter

end CampusQuery
