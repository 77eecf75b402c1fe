import StampScript.Evaluation.Outcome

/-!
# Names to use

A `use` makes names of a scope refer to variables that paths through namespaces lead to.  The
variable itself is shared, so an assignment through one name is seen through the other.
-/

namespace StampScript.Eval

/-- The name a path ends in, or the one a group belongs to. -/
def usedName : UseTree → String
  | .name name _ => name
  | .path _ name _ => name
  | .expand left _ => usedName left

/-- The namespace that a variable holds. -/
def namespaceOf (v : Nat) (name : String) : Eval Scope := do
  match ((← heap).variableAt v).value with
  | .namespaced s => return s
  | _ => fault (.notANamespace name)

/-- The variable that a path leads to from a scope. -/
def resolveUse (scope : Scope) : UseTree → Eval Nat
  | .name name _ => do orFault ((← heap).lookup? scope name) (.useNotFound name)
  | .path left name _ => do
    let inner ← namespaceOf (← resolveUse scope left) (usedName left)
    orFault ((← heap).own? inner name) (.useNotFound name)
  | .expand _ _ => fault (.kindMismatch "cannot use a group as a value")

mutual

/-- Makes names of the target refer to what a tree names, looked up from a scope. -/
def applyUse (target : Scope) : UseTree → Scope → Eval Unit
  | .name name newName, scope => do
    let v ← resolveUse scope (.name name newName)
    modifyHeap (fun h => h.bind target (newName.getD name) v)
  | .path left name newName, scope => do
    let v ← resolveUse scope (.path left name newName)
    modifyHeap (fun h => h.bind target (newName.getD name) v)
  | .expand left members, scope => do
    let inner ← namespaceOf (← resolveUse scope left) (usedName left)
    applyUses target members inner
termination_by structural t => t

/-- Makes names of the target refer to what the trees of a group name, one after the other. -/
def applyUses (target : Scope) : List UseTree → Scope → Eval Unit
  | [], _ => return
  | t :: ts, scope => do
    applyUse target t scope
    applyUses target ts scope
termination_by structural ts => ts

end

end StampScript.Eval
