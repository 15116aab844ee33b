import NLang.Image.Records

/-!
# Resolution of function slots

`src/vm/NcuLinkerSlots.cpp`, `ResolveFunctionSlots`: the function of the providing unit that a function import names.
-/

namespace NLang.Linker
open NLang.Library.Words NLang.Image

structure FunctionSlotHit where
  hit : Option Nat := none
  hits : Nat := 0
  ownerClassFound : Bool := false
  ordinalMismatch : Bool := false

def matchesImport (imp : SymbolImport) (func : CompiledFunction) : Bool :=
  func.name = imp.name && func.paramCount.toNat = imp.paramCount.toNat && func.isStatic = imp.isStatic

def scanHit (candidates : List Nat) (ownerClassFound : Bool) : FunctionSlotHit :=
  { hit := candidates.head?, hits := candidates.length, ownerClassFound }

section Target
variable (tgt : CompiledModule) (imp : SymbolImport)

def resolveNamespacedFunction : FunctionSlotHit :=
  if imp.ownerOrdinal ≠ noIndex then
    match tgt.ownFunctions[imp.ownerOrdinal.toNat]? with
    | some func =>
      if matchesImport imp func then { hit := some imp.ownerOrdinal.toNat, hits := 1 }
      else { ordinalMismatch := true }
    | none => { ordinalMismatch := true }
  else scanHit ((tgt.ownFunctions.zipIdx.filter fun (func, _) => matchesImport imp func).map (·.2)) false

inductive OwnerType where
  | cls (cc : CompiledClass)
  | struct (cs : CompiledStruct)

def findOwnerType : Option OwnerType :=
  if imp.ownerKind = 2 then (tgt.ownStructs.find? (·.name = imp.ownerClassKey)).map .struct
  else (tgt.ownClasses.find? (·.name = imp.ownerClassKey)).map .cls

def isCtorMethodEntry (cc : CompiledClass) (mi : UInt16) : Bool := mi ∈ cc.constructorIndices

def methodAt (cc : CompiledClass) : List UInt16 → UInt16 → Option UInt16
  | [], _ => none
  | mi :: rest, ordinal =>
    if tgt.ownFunctions.length ≤ mi.toNat || isCtorMethodEntry cc mi then methodAt cc rest ordinal
    else if ordinal ≠ imp.ownerOrdinal then methodAt cc rest (ordinal + 1)
    else some mi

def entryMatches (mi : UInt16) : Bool :=
  match tgt.ownFunctions[mi.toNat]? with
  | some func => matchesImport imp func
  | none => false

def resolveMethodRecord (cc : CompiledClass) : FunctionSlotHit :=
  if imp.ownerOrdinal ≠ noIndex then
    match methodAt tgt imp cc cc.methodIndices 0 with
    | some mi => if entryMatches tgt imp mi then { hit := some mi.toNat, hits := 1 } else {}
    | none => {}
  else scanHit ((cc.methodIndices.filter (entryMatches tgt imp)).map (·.toNat)) false

def constructorAt (ctors : List UInt16) : Option UInt16 :=
  if imp.ownerOrdinal ≠ noIndex then ctors[imp.ownerOrdinal.toNat]? else none

def resolveConstructor (ctors : List UInt16) : FunctionSlotHit :=
  match constructorAt imp ctors with
  | none => { ownerClassFound := true }
  | some ci =>
    match tgt.ownFunctions[ci.toNat]? with
    | some func =>
      if ci ≠ noIndex ∧ func.paramCount.toNat = imp.paramCount.toNat then
        { hit := some ci.toNat, hits := 1, ownerClassFound := true }
      else { ownerClassFound := true }
    | none => { ownerClassFound := true }

def importsMethod : Bool := imp.isStatic || imp.name ≠ leafNameOfKey imp.ownerClassKey

def resolveOwnerKeyedFunction : FunctionSlotHit :=
  match findOwnerType tgt imp with
  | none => {}
  | some (.struct cs) =>
    if importsMethod imp then { ownerClassFound := true } else resolveConstructor tgt imp cs.constructorIndices
  | some (.cls cc) =>
    if importsMethod imp then { resolveMethodRecord tgt imp cc with ownerClassFound := true }
    else resolveConstructor tgt imp cc.constructorIndices

def functionSlotHit : FunctionSlotHit :=
  if imp.ownerClassKey = [] then resolveNamespacedFunction tgt imp else resolveOwnerKeyedFunction tgt imp

end Target

inductive SlotProblem where
  | notInClosure
  | ordinalMismatch
  | missing (ownerClassFound : Bool)
  | ambiguous (hits : Nat)

def resolveFunctionImport (units : List CompiledModule) (imp : SymbolImport) : Except SlotProblem (Nat × Nat) :=
  match units.findIdx? (·.modulePath = imp.modulePath) with
  | none => .error .notInClosure
  | some owner =>
    let found := functionSlotHit (units.getD owner {}) imp
    match found.hits, found.hit with
    | 0, _ => .error (if found.ordinalMismatch then .ordinalMismatch else .missing found.ownerClassFound)
    | 1, some hit => .ok (owner, hit)
    | hits, _ => .error (.ambiguous hits)

end NLang.Linker
